import ScriptMigration.Migration.Basic
import ScriptMigration.Output.Static
import ScriptMigration.Reshape.Creation
import ScriptMigration.Reshape.Lifecycle
import ScriptMigration.Reshape.Localization
import ScriptMigration.Reshape.Property
import ScriptMigration.Reshape.SetterValue
import ScriptMigration.SymbolTable.Standard

/-! Migrating a batch of scripts: they are linked, reshaped for the target, resolved one by one, and
finished. A migration can be stopped between these steps. -/
namespace ScriptMigration

namespace Draft

def reshape (draft : Draft) : Draft :=
  draft.dropValueParams.1.gatherAccessors.1.settleHooks.1

end Draft

/-- A migration after linking. -/
structure MigrationRun where
  store : ScriptStore
  cache : MemberMemo
  outcomes : List (ScriptId × ResolutionOutcome) := []
  progress : MigrationProgress := {}

namespace MigrationRun

def resolve (symbols : SymbolTable) (options : MigrationOptions) (run : MigrationRun)
    (id : ScriptId) : MigrationRun :=
  let resolved := run.store.resolve symbols options run.cache id
  { store := resolved.store
    cache := resolved.cache
    outcomes := run.outcomes ++ [(id, resolved.outcome)]
    progress := { run.progress.beginStep with
      diagnostics := run.progress.diagnostics ++ resolved.diagnostics } }

/-- Resolves scripts in order, unless it is stopped before one of them. -/
def resolveAll (symbols : SymbolTable) (options : MigrationOptions) (interrupt : Interrupt) :
    List ScriptId → MigrationRun → Option MigrationFailure × MigrationRun
  | [], run => (none, run)
  | id :: rest, run =>
    if interrupt run.progress then (some (.cancelled .resolution), run)
    else resolveAll symbols options interrupt rest (run.resolve symbols options id)

end MigrationRun

structure ScriptProducts where
  draft : Draft
  imports : Imports
  assemblies : List Assembly
  resources : ResourceTable

/-- The last changes to the draft of a script, and what is read off it. -/
def Draft.finish (draft : Draft) (id : ScriptId) (symbols : SymbolTable)
    (options : MigrationOptions) : ScriptProducts :=
  let draft := (draft.typeCreations symbols).1
  let imports := draft.imports id symbols options.baseNamespace
  let assemblies := draft.assemblies symbols
  let (draft, resources) := draft.moveTexts symbols options
  { draft, imports, assemblies, resources }

namespace ScriptStore

def mapDraft (store : ScriptStore) (f : Draft → Draft) (id : ScriptId) : ScriptStore :=
  match store.draft? id with
  | some draft => store.setDraft id (f draft)
  | none => store

/-- A store with the scripts of a batch, and their numbers. Of two scripts of one key the first
counts, but a form given later replaces that of the first. -/
def ofInputs (inputs : List BatchEntry) : ScriptStore × List ScriptId :=
  inputs.foldl (fun (store, roots) input =>
    let (id, store) := ScriptStore.add store input.key input.plugin input.text
    let store :=
      match input.form with
      | some form => store.modify id fun script => { script with form := some form }
      | none => store
    (store, roots ++ [id])) (({} : ScriptStore), ([] : List ScriptId))

end ScriptStore

/-- A reader that looks up parses in a cache and notes which parse each script has. -/
structure CachingReader where
  cache : ModuleCache
  sources : List (ScriptId × ParsedModule) := []

namespace CachingReader

/-- Parses are held by something outside or by the scripts of this run. -/
def holds (reader : CachingReader) (held : ModuleCache.Holding) (ticket : Nat) : Bool :=
  held ticket || reader.sources.any (·.2.ticket == ticket)

def read (held : ModuleCache.Holding) : ScriptReader CachingReader := fun id script reader =>
  match reader.cache.parse (reader.holds held) script.text script.key.name with
  | (.ok parsed, cache) =>
    (.ok parsed.module, { cache, sources := (id, parsed) :: reader.sources })
  | (.error faults, cache) => (.error faults, { reader with cache })

end CachingReader

/-- What is left of a migration: its result, what it told, and the cache for the next one. -/
structure MigrationReport (α : Type) where
  result : Except MigrationFailure α
  progress : MigrationProgress
  cache : ModuleCache

structure Migrator where
  symbols : SymbolTable := .standard
  options : MigrationOptions := {}
  cache : ModuleCache := {}

namespace Migrator

variable (migrator : Migrator)

def assemble (run : MigrationRun) (sources : List (ScriptId × ParsedModule))
    (returns : List (ScriptId × ReturnCounts)) (statics : List ScriptId) (id : ScriptId) :
    Option ScriptResult := do
  let script ← run.store.get? id
  let draft ← script.draft?
  let source := ((sources.find? (·.1 == id)).map (·.2)).getD ⟨0, draft.toModule⟩
  let products := draft.finish id migrator.symbols migrator.options
  return {
    id
    key := script.key
    plugin := script.plugin
    draft := products.draft
    source
    dependencies := (script.dependencies.filterMap run.store.get?).map (·.key)
    isStatic := statics.contains id
    resolution := ((run.outcomes.find? (·.1 == id)).map (·.2)).getD {}
    returns := ((returns.find? (·.1 == id)).map (·.2)).getD {}
    imports := products.imports
    assemblies := products.assemblies
    resources := products.resources }

def finish (run : MigrationRun) (order : List ScriptId)
    (sources : List (ScriptId × ParsedModule)) : Migration :=
  let localName := migrator.options.returnLocalName
  let returns := order.filterMap fun id =>
    (run.store.draft? id).map fun draft => (id, (draft.returnValues localName).2)
  let store := order.foldl (·.mapDraft (fun draft => (draft.returnValues localName).1) ·) run.store
  let (store, statics) := store.markStatics
  { scripts := order.filterMap
      (migrator.assemble { run with store } sources returns statics)
    failed := store.scripts.filterMap fun script =>
      script.faults?.map fun faults => (script.key, faults) }

def migrate (interrupt : Interrupt) (held : ModuleCache.Holding) (inputs : List BatchEntry)
    (source : ScriptSource) : MigrationReport Migration :=
  if interrupt {} then
    { result := .error (.cancelled .link), progress := {}, cache := migrator.cache }
  else
    let (store, roots) := ScriptStore.ofInputs inputs
    let linked := store.link (CachingReader.read held) { cache := migrator.cache } source roots
    let cache := linked.reader.cache
    let progress : MigrationProgress := ⟨1, linked.asked, linked.diagnostics⟩
    if interrupt progress then
      { result := .error (.cancelled .reshaping), progress, cache }
    else
      let run : MigrationRun := {
        store := linked.order.foldl (·.mapDraft Draft.reshape ·) linked.store
        cache := .withCapacity migrator.options.memberCacheCapacity
        progress := progress.beginStep }
      match run.resolveAll migrator.symbols migrator.options interrupt linked.order with
      | (some error, run) => { result := .error error, progress := run.progress, cache }
      | (none, run) =>
        if interrupt run.progress then
          { result := .error (.cancelled .finishing), progress := run.progress, cache }
        else
          let migration := migrator.finish run linked.order linked.reader.sources
          let progress := run.progress.beginStep
          if interrupt progress then { result := .error (.cancelled .output), progress, cache }
          else { result := .ok migration, progress := progress.beginStep, cache }

def migrateOne (interrupt : Interrupt) (held : ModuleCache.Holding) (input : BatchEntry)
    (source : ScriptSource) : MigrationReport ScriptResult :=
  let report := migrator.migrate interrupt held [input] source
  { report with result := report.result.bind (·.take input.key) }

end Migrator

end ScriptMigration
