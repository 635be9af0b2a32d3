import ScriptMigration.Diagnostic
import ScriptMigration.Grammar.Module
import ScriptMigration.Include.Graph
import ScriptMigration.Include.Header
import ScriptMigration.Script.Store

/-! Linking a batch: reading its scripts, fetching those that they include and that the batch does
not hold, and finding out what each script depends on. -/
namespace ScriptMigration

structure FetchedScript where
  text : String
  plugin : Plugin := .script

/-- A place from which included scripts can be fetched. What a place may do to answer is not modelled: it is
the finite table of its answers, which are those for a key however the key is spelt. -/
structure ScriptSource where
  entries : List (ScriptKey × FetchedScript) := []

namespace ScriptSource

def find? (source : ScriptSource) (key : ScriptKey) : Option FetchedScript :=
  (source.entries.reverse.find? (·.1.lookup == key.lookup)).map (·.2)

end ScriptSource

/-- A way to read the text of a script that keeps a state of its own. -/
abbrev ScriptReader (σ : Type) := ScriptId → Script → σ → Except (List SyntaxFault) Module × σ

def Script.readAnew (script : Script) : Reading :=
  match parseModule script.text script.key.name with
  | .ok module => .read (.ofModule module)
  | .error faults => .faulty faults

def ScriptReader.direct : ScriptReader Unit := fun _ script state =>
  (parseModule script.text script.key.name, state)

/-- How far linking has come. -/
structure LinkState (σ : Type) where
  store : ScriptStore
  reader : σ
  /-- The scripts that were linked or are being linked. -/
  visited : List ScriptId := []
  /-- The includes of the scripts that are linked, as they were finished. -/
  direct : List (ScriptId × List ScriptId) := []
  /-- How many scripts were fetched. -/
  loaded : Nat := 0
  /-- The keys that the source was asked for. -/
  asked : List ScriptKey := []
  diagnostics : List Diagnostic := []

namespace LinkState

variable {σ : Type}

def warn (state : LinkState σ) (message : String) : LinkState σ :=
  { state with diagnostics := state.diagnostics ++ [{ message }] }

def readScript (read : ScriptReader σ) (id : ScriptId) (state : LinkState σ) : LinkState σ :=
  match state.store.get? id with
  | none => state
  | some script =>
    match script.reading with
    | .read _ | .faulty _ => state
    | .unread =>
      match read id script state.reader with
      | (.ok module, reader) =>
        { state with reader, store := state.store.setDraft id (.ofModule module) }
      | (.error faults, reader) =>
        { state with reader, store := state.store.setReading id (.faulty faults) }.warn
          (IncludeFault.unreadable script.key faults).message

/-- The number of the script that an entry includes, which is fetched where the batch lacks it. -/
def fetch (source : ScriptSource) (key : ScriptKey) (state : LinkState σ) :
    Option ScriptId × LinkState σ :=
  match state.store.find? key with
  | some id => (some id, state)
  | none =>
    let state := { state with asked := state.asked ++ [key] }
    match source.find? key with
    | none => (none, state)
    | some found =>
      let (id, store) := state.store.add key found.plugin found.text
      (some id, { state with store, loaded := state.loaded + 1 })

def link (read : ScriptReader σ) (source : ScriptSource) :
    (bound : Nat) → ScriptId → LinkState σ → LinkState σ
  | 0, _, state => state
  | bound + 1, id, state =>
    if state.visited.contains id then state
    else
      let state := readScript read id { state with visited := id :: state.visited }
      match state.store.get? id with
      | none => state
      | some script =>
        let own := script.key
        let header := IncludeHeader.read script.text
        let state := header.faults.foldl
          (fun state fault => state.warn s!"{own.render}: {fault.message}") state
        let (targets, state) := (header.entries.filter (!·.key.same own)).foldl
          (fun (targets, state) entry =>
            match fetch source entry.key state with
            | (none, state) =>
              (targets, state.warn s!"{own.render}: {(IncludeFault.notFound entry.key).message}")
            | (some target, state) =>
              let state := link read source bound target state
              if (state.store.get? target).any Script.isValid && !targets.contains target then
                (targets ++ [target], state)
              else (targets, state))
          (([] : List ScriptId), state)
        { state with direct := state.direct ++ [(id, targets)] }

def graph (state : LinkState σ) : IncludeGraph where
  edges := state.direct.mergeSort fun left right => left.1.index ≤ right.1.index

end LinkState

/-- A linked batch. -/
structure Linked (σ : Type) where
  store : ScriptStore
  reader : σ
  /-- The scripts that could be read, each after what it includes. -/
  order : List ScriptId
  /-- The number of includes. -/
  edges : Nat
  /-- How many scripts were fetched. -/
  loaded : Nat
  asked : List ScriptKey
  diagnostics : List Diagnostic

def ScriptStore.link {σ : Type} (store : ScriptStore) (read : ScriptReader σ) (reader : σ)
    (source : ScriptSource) (roots : List ScriptId) : Linked σ :=
  let bound := store.size + source.entries.length + 1
  let state := roots.foldl (fun state root => LinkState.link read source bound root state)
    { store, reader }
  let graph := state.graph
  let store := graph.scripts.foldl
    (fun store script => store.modify script fun entry =>
      { entry with dependencies := graph.dependencies script }) state.store
  { store, reader := state.reader
    order := graph.order.filter fun script => (store.get? script).any Script.isValid
    edges := (graph.edges.map (·.2.length)).sum
    loaded := state.loaded
    asked := state.asked
    diagnostics := state.diagnostics }

end ScriptMigration
