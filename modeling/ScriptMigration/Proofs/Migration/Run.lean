import ScriptMigration.Proofs.Migration.Batch

/-! The course of a migration: a batch is linked, and what becomes of it then depends on the linked
batch alone. No later step adds a script or drops one, or touches anything but the trees of those that
could be read, so a migration that is not stopped gives a result for every one of them. -/
namespace ScriptMigration

namespace Script

def redraft (script : Script) (f : Draft → Draft) : Script :=
  match script.reading with
  | .read draft => { script with reading := .read (f draft) }
  | _ => script

section Redraft

variable (script : Script) (f : Draft → Draft)

@[simp] theorem key_redraft : (script.redraft f).key = script.key := by
  unfold redraft
  split <;> rfl

@[simp] theorem text_redraft : (script.redraft f).text = script.text := by
  unfold redraft
  split <;> rfl

@[simp] theorem dependencies_redraft :
    (script.redraft f).dependencies = script.dependencies := by
  unfold redraft
  split <;> rfl

@[simp] theorem form_redraft : (script.redraft f).form = script.form := by
  unfold redraft
  split <;> rfl

@[simp] theorem faults?_redraft : (script.redraft f).faults? = script.faults? := by
  unfold redraft
  split
  · rename_i draft isRead
    rw [faults?, faults?, isRead]
  · rfl

@[simp] theorem draft?_redraft : (script.redraft f).draft? = script.draft?.map f := by
  rcases script with ⟨_, _, _, _ | _ | _, _, _⟩ <;> rfl

end Redraft

end Script

namespace ScriptStore

def Redrafted (store other : ScriptStore) : Prop :=
  ∀ id, ∃ f : Draft → Draft, other.get? id = (store.get? id).map (·.redraft f)

namespace Redrafted

variable {store other last : ScriptStore}

theorem refl (store : ScriptStore) : Redrafted store store := by
  refine fun id => ⟨fun draft => draft, ?_⟩
  cases store.get? id with
  | none => rfl
  | some script =>
    unfold Script.redraft
    rcases script with ⟨_, _, _, _ | _ | _, _, _⟩ <;> rfl

theorem trans (first : Redrafted store other) (second : Redrafted other last) :
    Redrafted store last := by
  intro id
  obtain ⟨f, isFirst⟩ := first id
  obtain ⟨g, isSecond⟩ := second id
  refine ⟨fun draft => g (f draft), ?_⟩
  rw [isSecond, isFirst, Option.map_map]
  refine congrArg (fun change => (store.get? id).map change) (funext fun script => ?_)
  unfold Script.redraft
  rcases script with ⟨_, _, _, _ | _ | _, _, _⟩ <;> rfl

theorem setDraft {id : ScriptId} {draft : Draft} (found : store.draft? id = some draft)
    (new : Draft) : Redrafted store (store.setDraft id new) := by
  intro other
  obtain ⟨script, listed, isDraft⟩ := exists_script found
  by_cases same : other = id
  · subst same
    refine ⟨fun _ => new, ?_⟩
    rw [ScriptStore.setDraft, setReading, get?_modify, if_pos rfl, listed]
    unfold Script.redraft
    unfold Script.draft? at isDraft
    rcases script with ⟨_, _, _, _ | _ | _, _, _⟩
    · cases isDraft
    · rfl
    · cases isDraft
  · obtain ⟨f, unchanged⟩ := refl store other
    refine ⟨f, ?_⟩
    rw [ScriptStore.setDraft, setReading, get?_modify, if_neg same]
    exact unchanged

theorem mapDraft (store : ScriptStore) (f : Draft → Draft) (id : ScriptId) :
    Redrafted store (store.mapDraft f id) := by
  unfold ScriptStore.mapDraft
  cases found : store.draft? id with
  | none => exact refl store
  | some draft => exact setDraft found (f draft)

/-- Changing the trees of scripts one after the other changes nothing else. -/
theorem foldl {step : ScriptStore → ScriptId → ScriptStore}
    (redrafts : ∀ store id, Redrafted store (step store id)) (ids : List ScriptId)
    (store : ScriptStore) : Redrafted store (ids.foldl step store) := by
  induction ids generalizing store with
  | nil => exact refl store
  | cons id rest ih => exact (redrafts store id).trans (ih (step store id))

theorem resolve (store : ScriptStore) (symbols : SymbolTable) (options : MigrationOptions)
    (cache : MemberMemo) (id : ScriptId) :
    Redrafted store (store.resolve symbols options cache id).store := by
  unfold ScriptStore.resolve
  cases listed : store.get? id with
  | none => exact refl store
  | some script =>
    dsimp only
    cases isDraft : script.draft? with
    | none => exact refl store
    | some draft =>
      have found : store.draft? id = some draft := by rw [draft?, listed, Option.bind_some, isDraft]
      exact setDraft found _

theorem markStatics (store : ScriptStore) : Redrafted store store.markStatics.1 := by
  refine foldl (fun current id => ?_) _ _
  cases found : current.draft? id with
  | none => exact refl current
  | some draft => exact setDraft found _

section Facts

variable (redrafted : Redrafted store other)

include redrafted

theorem map_scripts {α : Type} (g : Script → α) (plain : ∀ script f, g (script.redraft f) = g script) :
    other.scripts.map g = store.scripts.map g := by
  refine List.ext_getElem? fun index => ?_
  obtain ⟨f, same⟩ := redrafted ⟨index⟩
  have listed : other.scripts[index]? = (store.scripts[index]?).map (·.redraft f) := same
  rw [List.getElem?_map, List.getElem?_map, listed, Option.map_map]
  exact congrArg (fun change => (store.scripts[index]?).map change)
    (funext fun script => plain script f)

theorem map_get? {α : Type} (g : Script → α) (plain : ∀ script f, g (script.redraft f) = g script)
    (id : ScriptId) : (other.get? id).map g = (store.get? id).map g := by
  obtain ⟨f, same⟩ := redrafted id
  rw [same, Option.map_map]
  exact congrArg (fun change => (store.get? id).map change) (funext fun script => plain script f)

theorem exists_old {id : ScriptId} {script : Script} (listed : other.get? id = some script) :
    ∃ old f, store.get? id = some old ∧ script = old.redraft f := by
  obtain ⟨f, same⟩ := redrafted id
  rw [same] at listed
  obtain ⟨old, isOld, rfl⟩ := Option.map_eq_some_iff.1 listed
  exact ⟨old, f, isOld, rfl⟩

theorem exists_draft {id : ScriptId} (found : ∃ draft, store.draft? id = some draft) :
    ∃ draft, other.draft? id = some draft := by
  obtain ⟨draft, isDraft⟩ := found
  obtain ⟨script, listed, isDraft⟩ := exists_script isDraft
  obtain ⟨f, same⟩ := redrafted id
  refine ⟨f draft, ?_⟩
  rw [draft?, same, listed, Option.map_some, Option.bind_some, Script.draft?_redraft, isDraft,
    Option.map_some]

end Facts

end Redrafted

end ScriptStore

namespace MigrationRun

variable {symbols : SymbolTable} {options : MigrationOptions} {interrupt : Interrupt}

theorem resolveAll_cases (order : List ScriptId) (run : MigrationRun) :
    resolveAll symbols options interrupt order run =
        (none, order.foldl (·.resolve symbols options ·) run) ∨
      (resolveAll symbols options interrupt order run).1 = some (.cancelled .resolution) := by
  induction order generalizing run with
  | nil => exact .inl rfl
  | cons id rest ih =>
    unfold resolveAll
    split
    · exact .inr rfl
    · exact ih (run.resolve symbols options id)

theorem resolveAll_of_never (never : ∀ progress, interrupt progress = false) (order : List ScriptId)
    (run : MigrationRun) : resolveAll symbols options interrupt order run =
      (none, order.foldl (·.resolve symbols options ·) run) := by
  induction order generalizing run with
  | nil => rfl
  | cons id rest ih =>
    rw [resolveAll, if_neg (by simp [never])]
    exact ih (run.resolve symbols options id)

theorem asked_resolveAll (order : List ScriptId) (run : MigrationRun) :
    (resolveAll symbols options interrupt order run).2.progress.asked = run.progress.asked := by
  induction order generalizing run with
  | nil => rfl
  | cons id rest ih =>
    unfold resolveAll
    split
    · rfl
    · exact ih (run.resolve symbols options id)

end MigrationRun

namespace Migrator

variable (migrator : Migrator) (interrupt : Interrupt) {σ : Type}

def reshapedRun (linked : Linked σ) : MigrationRun where
  store := linked.order.foldl (·.mapDraft Draft.reshape ·) linked.store
  cache := .withCapacity migrator.options.memberCacheCapacity
  progress := ⟨2, linked.asked, linked.diagnostics⟩

def resolvedRun (linked : Linked σ) : MigrationRun :=
  linked.order.foldl (·.resolve migrator.symbols migrator.options ·) (migrator.reshapedRun linked)

def migrateLinked (linked : Linked σ) (sources : List (ScriptId × ParsedModule)) :
    Except MigrationFailure Migration × MigrationProgress :=
  if interrupt ⟨1, linked.asked, linked.diagnostics⟩ then
    (.error (.cancelled .reshaping), ⟨1, linked.asked, linked.diagnostics⟩)
  else
    match (migrator.reshapedRun linked).resolveAll migrator.symbols migrator.options interrupt
      linked.order with
    | (some error, run) => (.error error, run.progress)
    | (none, run) =>
      if interrupt run.progress then (.error (.cancelled .finishing), run.progress)
      else if interrupt run.progress.beginStep then
        (.error (.cancelled .output), run.progress.beginStep)
      else (.ok (migrator.finish run linked.order sources), run.progress.beginStep.beginStep)

theorem migrateLinked_cases (linked : Linked σ) (sources : List (ScriptId × ParsedModule)) :
    (∃ step, (migrator.migrateLinked interrupt linked sources).1 = .error (.cancelled step)) ∨
      (migrator.migrateLinked interrupt linked sources).1 =
        .ok (migrator.finish (migrator.resolvedRun linked) linked.order sources) := by
  unfold migrateLinked
  split
  · exact .inl ⟨_, rfl⟩
  · rcases MigrationRun.resolveAll_cases linked.order (migrator.reshapedRun linked) with
      whole | stopped
    · rw [whole]
      dsimp only
      split
      · exact .inl ⟨_, rfl⟩
      · split
        · exact .inl ⟨_, rfl⟩
        · exact .inr rfl
    · split
      · rename_i error run isStopped
        rw [isStopped] at stopped
        obtain rfl := Option.some.inj stopped
        exact .inl ⟨_, rfl⟩
      · rename_i run isWhole
        rw [isWhole] at stopped
        exact nomatch stopped

theorem asked_migrateLinked (linked : Linked σ) (sources : List (ScriptId × ParsedModule)) :
    (migrator.migrateLinked interrupt linked sources).2.asked = linked.asked := by
  have asked : ((migrator.reshapedRun linked).resolveAll migrator.symbols migrator.options interrupt
      linked.order).2.progress.asked = linked.asked := MigrationRun.asked_resolveAll ..
  unfold migrateLinked
  split
  · rfl
  · split
    · rename_i result
      rw [result] at asked
      exact asked
    · rename_i result
      rw [result] at asked
      split
      · exact asked
      · split <;> exact asked

theorem migrateLinked_of_never (never : ∀ progress, interrupt progress = false) (linked : Linked σ)
    (sources : List (ScriptId × ParsedModule)) :
    (migrator.migrateLinked interrupt linked sources).1 =
      .ok (migrator.finish (migrator.resolvedRun linked) linked.order sources) := by
  unfold migrateLinked
  rw [if_neg (by simp [never]), MigrationRun.resolveAll_of_never never]
  dsimp only
  rw [if_neg (by simp [never]), if_neg (by simp [never])]
  rfl

section Finish

variable (run : MigrationRun) (order : List ScriptId) (sources : List (ScriptId × ParsedModule))

def finishedStore : ScriptStore :=
  (order.foldl (·.mapDraft (fun draft =>
    (draft.returnValues migrator.options.returnLocalName).1) ·) run.store).markStatics.1

theorem finishedStore_redrafted : run.store.Redrafted (migrator.finishedStore run order) :=
  (ScriptStore.Redrafted.foldl (fun store id => .mapDraft store _ id) order run.store).trans
    (.markStatics _)

theorem finish_failed {store : ScriptStore} (redrafted : store.Redrafted run.store) :
    (migrator.finish run order sources).failed = store.scripts.filterMap fun script =>
      script.faults?.map fun faults => (script.key, faults) := by
  have same := (redrafted.trans (migrator.finishedStore_redrafted run order)).map_scripts
    (fun script => script.faults?.map fun faults => (script.key, faults))
    (fun script f => by simp)
  have unfolds : (migrator.finish run order sources).failed =
    (migrator.finishedStore run order).scripts.filterMap fun script =>
      script.faults?.map fun faults => (script.key, faults) := rfl
  have listed := congrArg (List.filterMap id) same
  rw [List.filterMap_map, List.filterMap_map] at listed
  exact unfolds.trans listed

theorem assemble_spec (returns : List (ScriptId × ReturnCounts)) (statics : List ScriptId)
    {id : ScriptId} {script : Script} (listed : run.store.get? id = some script)
    {draft : Draft} (isDraft : script.draft? = some draft) :
    ∃ result, migrator.assemble run sources returns statics id = some result ∧ result.id = id ∧
      result.key = script.key ∧
      result.dependencies = (script.dependencies.filterMap run.store.get?).map (·.key) ∧
      ∀ parsed, sources.find? (·.1 == id) = some (id, parsed) → result.source = parsed := by
  unfold assemble
  rw [listed]
  dsimp only [Option.bind_eq_bind, Option.bind_some]
  rw [isDraft]
  refine ⟨_, rfl, rfl, rfl, rfl, fun parsed found => ?_⟩
  dsimp only
  rw [found]
  rfl

/-- What the result of a script tells of it: its key, the keys of what it depends on, and the module
that is noted for it. -/
def Tells (store : ScriptStore) (result : ScriptResult) : Prop :=
  ∃ script, store.get? result.id = some script ∧ result.key = script.key ∧
    result.dependencies = script.dependencies.filterMap (fun id => (store.get? id).map (·.key)) ∧
    ∀ parsed, sources.find? (·.1 == result.id) = some (result.id, parsed) → result.source = parsed

theorem finish_scripts
    (readable : ∀ id ∈ order, ∃ draft, run.store.draft? id = some draft) :
    (migrator.finish run order sources).scripts.map (·.id) = order ∧
      ∀ result ∈ (migrator.finish run order sources).scripts, Tells sources run.store result := by
  have redrafted := migrator.finishedStore_redrafted run order
  have unfolds : ∃ returns statics, (migrator.finish run order sources).scripts =
      order.filterMap (migrator.assemble { run with store := migrator.finishedStore run order }
        sources returns statics) := ⟨_, _, rfl⟩
  obtain ⟨returns, statics, whole⟩ := unfolds
  have results : ∀ id ∈ order, ∃ result, migrator.assemble
      { run with store := migrator.finishedStore run order } sources returns statics id =
        some result ∧ result.id = id ∧ Tells sources run.store result := by
    intro id among
    obtain ⟨draft, found⟩ := readable id among
    obtain ⟨script, listed, isDraft⟩ := ScriptStore.exists_script found
    obtain ⟨f, same⟩ := redrafted id
    rw [listed, Option.map_some] at same
    have later : (script.redraft f).draft? = some (f draft) := by
      rw [Script.draft?_redraft, isDraft, Option.map_some]
    obtain ⟨result, assembled, rfl, key, dependencies, source⟩ :=
      migrator.assemble_spec { run with store := migrator.finishedStore run order } sources returns
        statics same later
    refine ⟨result, assembled, rfl, script, listed, by rw [key, Script.key_redraft], ?_, source⟩
    rw [dependencies, Script.dependencies_redraft, List.map_filterMap]
    exact List.filterMap_congr fun id _ => redrafted.map_get? (·.key) (by simp) id
  rw [whole]
  constructor
  · rw [List.map_filterMap]
    refine Eq.trans (List.filterMap_congr fun id among => ?_) List.filterMap_some
    obtain ⟨result, assembled, named, -⟩ := results id among
    rw [assembled, Option.map_some, named]
  · intro result listed
    obtain ⟨id, among, assembled⟩ := List.mem_filterMap.1 listed
    obtain ⟨other, isOther, -, tells⟩ := results id among
    rw [Option.some.inj (assembled.symm.trans isOther)]
    exact tells

end Finish

section Linked

variable (linked : Linked σ)

theorem reshapedRun_redrafted : linked.store.Redrafted (migrator.reshapedRun linked).store :=
  ScriptStore.Redrafted.foldl (fun store id => .mapDraft store _ id) linked.order linked.store

theorem resolvedRun_redrafted : linked.store.Redrafted (migrator.resolvedRun linked).store := by
  refine List.foldlRecOn (motive := fun run : MigrationRun => linked.store.Redrafted run.store)
    linked.order _ (migrator.reshapedRun_redrafted linked) fun run kept id _ => ?_
  exact kept.trans (.resolve run.store migrator.symbols migrator.options run.cache id)

theorem finish_resolvedRun {inputs : List BatchEntry} {read : ScriptReader σ} {reader : σ}
    {source : ScriptSource} (isLinked : ScriptStore.linkInputs inputs read reader source = linked)
    (sources : List (ScriptId × ParsedModule)) :
    (migrator.finish (migrator.resolvedRun linked) linked.order sources).scripts.map (·.id) =
        linked.order ∧
      ∀ result ∈ (migrator.finish (migrator.resolvedRun linked) linked.order sources).scripts,
        Tells sources linked.store result := by
  subst isLinked
  have redrafted := migrator.resolvedRun_redrafted (ScriptStore.linkInputs inputs read reader source)
  obtain ⟨ids, tells⟩ := migrator.finish_scripts (migrator.resolvedRun _) _ sources fun id among =>
    redrafted.exists_draft (ScriptStore.exists_draft_linkInputs inputs read reader source among)
  refine ⟨ids, fun result listed => ?_⟩
  obtain ⟨script, isScript, key, dependencies, noted⟩ := tells result listed
  obtain ⟨old, f, isOld, rfl⟩ := redrafted.exists_old isScript
  refine ⟨old, isOld, by rw [key, Script.key_redraft], ?_, noted⟩
  rw [dependencies, Script.dependencies_redraft]
  exact List.filterMap_congr fun id _ => redrafted.map_get? (·.key) (by simp) id

end Linked

variable (held : ModuleCache.Holding) (inputs : List BatchEntry) (source : ScriptSource)

def linkedBatch : Linked CachingReader :=
  ScriptStore.linkInputs inputs (CachingReader.read held) { cache := migrator.cache } source

theorem migrate_eq (starts : interrupt {} = false) :
    migrator.migrate interrupt held inputs source =
      { result := (migrator.migrateLinked interrupt (migrator.linkedBatch held inputs source)
          (migrator.linkedBatch held inputs source).reader.sources).1
        progress := (migrator.migrateLinked interrupt (migrator.linkedBatch held inputs source)
          (migrator.linkedBatch held inputs source).reader.sources).2
        cache := (migrator.linkedBatch held inputs source).reader.cache } := by
  have unfolds : migrator.migrate interrupt held inputs source =
      if interrupt {} then
        { result := .error (.cancelled .link), progress := {}, cache := migrator.cache }
      else
        let linked := migrator.linkedBatch held inputs source
        if interrupt ⟨1, linked.asked, linked.diagnostics⟩ then
          { result := .error (.cancelled .reshaping)
            progress := ⟨1, linked.asked, linked.diagnostics⟩, cache := linked.reader.cache }
        else
          match (migrator.reshapedRun linked).resolveAll migrator.symbols migrator.options interrupt
            linked.order with
          | (some error, run) =>
            { result := .error error, progress := run.progress, cache := linked.reader.cache }
          | (none, run) =>
            if interrupt run.progress then
              { result := .error (.cancelled .finishing)
                progress := run.progress, cache := linked.reader.cache }
            else if interrupt run.progress.beginStep then
              { result := .error (.cancelled .output)
                progress := run.progress.beginStep, cache := linked.reader.cache }
            else
              { result := .ok (migrator.finish run linked.order linked.reader.sources)
                progress := run.progress.beginStep.beginStep, cache := linked.reader.cache } := rfl
  rw [unfolds, if_neg (by simp [starts])]
  unfold migrateLinked
  dsimp only
  split
  · rfl
  · split
    · rfl
    · split
      · rfl
      · split <;> rfl

theorem migrate_of_runs
    (runs : ∀ step, (migrator.migrate interrupt held inputs source).result ≠ .error (.cancelled step)) :
    (migrator.migrate interrupt held inputs source).result =
        .ok (migrator.finish (migrator.resolvedRun (migrator.linkedBatch held inputs source))
          (migrator.linkedBatch held inputs source).order
          (migrator.linkedBatch held inputs source).reader.sources) ∧
      (migrator.migrate interrupt held inputs source).progress.asked =
        (migrator.linkedBatch held inputs source).asked := by
  cases starts : interrupt {} with
  | true =>
    refine absurd ?_ (runs .link)
    unfold migrate
    rw [if_pos starts]
  | false =>
    rw [migrator.migrate_eq interrupt held inputs source starts] at runs ⊢
    refine ⟨?_, migrator.asked_migrateLinked interrupt _ _⟩
    rcases migrator.migrateLinked_cases interrupt (migrator.linkedBatch held inputs source)
      (migrator.linkedBatch held inputs source).reader.sources with ⟨step, stopped⟩ | done
    · exact absurd stopped (runs step)
    · exact done

end Migrator

end ScriptMigration
