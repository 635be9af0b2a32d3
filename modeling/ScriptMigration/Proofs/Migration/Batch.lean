import ScriptMigration.Migration.Migrate
import ScriptMigration.Proofs.Include.Dependencies

/-! The store of a batch. Each name of the batch has one script in it, that of the first entry of the
name, and none of its scripts was read. -/
namespace ScriptMigration

def BatchEntry.first? (inputs : List BatchEntry) (name : FoldedName) : Option BatchEntry :=
  inputs.find? (·.key.lookup == name)

/-- The text that counts for a name: that of a batch, or else the one that a source offers. -/
def BatchEntry.textOf? (inputs : List BatchEntry) (source : ScriptSource) (name : FoldedName) :
    Option String :=
  ((first? inputs name).map (·.text)).or
    ((source.entries.reverse.find? (·.1.lookup == name)).map (·.2.text))

namespace ScriptStore

def withForm (store : ScriptStore) (id : ScriptId) : Option HostForm → ScriptStore
  | some form => store.modify id fun script => { script with form := some form }
  | none => store

theorem names_withForm (store : ScriptStore) (id : ScriptId) (form : Option HostForm) :
    (store.withForm id form).names = store.names := by
  cases form with
  | none => rfl
  | some form => exact names_modify _ _ fun _ => rfl

theorem size_withForm (store : ScriptStore) (id : ScriptId) (form : Option HostForm) :
    (store.withForm id form).size = store.size := by
  rw [← length_names, names_withForm, length_names]

theorem get?_withForm {store : ScriptStore} {id other : ScriptId} {form : Option HostForm}
    {script : Script} (listed : (store.withForm id form).get? other = some script) :
    ∃ old given, store.get? other = some old ∧ script = { old with form := given } := by
  cases form with
  | none => exact ⟨script, script.form, listed, rfl⟩
  | some form =>
    rw [withForm, get?_modify] at listed
    split at listed
    · obtain ⟨old, isOld, rfl⟩ := Option.map_eq_some_iff.1 listed
      exact ⟨old, _, isOld, rfl⟩
    · exact ⟨script, script.form, listed, rfl⟩

theorem ofInputs_concat (inputs : List BatchEntry) (input : BatchEntry) :
    ofInputs (inputs ++ [input]) =
      (((ofInputs inputs).1.add input.key input.plugin input.text).2.withForm
          ((ofInputs inputs).1.add input.key input.plugin input.text).1 input.form,
        (ofInputs inputs).2 ++ [((ofInputs inputs).1.add input.key input.plugin input.text).1]) := by
  rw [ofInputs, List.foldl_append]
  rfl

def Entered (inputs : List BatchEntry) (script : Script) : Prop :=
  script.reading = .unread ∧ ∃ input, BatchEntry.first? inputs script.key.lookup = some input ∧
    script.key = input.key ∧ script.plugin = input.plugin ∧ script.text = input.text

theorem Entered.concat {inputs : List BatchEntry} {script : Script} (entered : Entered inputs script)
    (input : BatchEntry) : Entered (inputs ++ [input]) script := by
  obtain ⟨unread, first, isFirst, same⟩ := entered
  refine ⟨unread, first, ?_, same⟩
  rw [BatchEntry.first?] at isFirst
  rw [BatchEntry.first?, List.find?_append, isFirst, Option.some_or]

structure HoldsBatch (inputs : List BatchEntry) (store : ScriptStore) (roots : List ScriptId) :
    Prop where
  names : store.names = (inputs.map (·.key.lookup)).eraseDups
  entered : ∀ {id script}, store.get? id = some script → Entered inputs script
  roots : ∀ id, id ∈ roots ↔ id ∈ store.ids

theorem mem_ids {store : ScriptStore} {id : ScriptId} : id ∈ store.ids ↔ id.index < store.size := by
  rcases id with ⟨index⟩
  simp [ids]

theorem ids_nodup (store : ScriptStore) : store.ids.Nodup :=
  List.nodup_range.map fun _ _ same => ScriptId.mk.inj same

theorem mem_ids_of_get? {store : ScriptStore} {id : ScriptId} {script : Script}
    (listed : store.get? id = some script) : id ∈ store.ids :=
  mem_ids.2 (List.getElem?_eq_some_iff.1 listed).1

theorem HoldsBatch.concat {inputs : List BatchEntry} {store : ScriptStore} {roots : List ScriptId}
    (holds : HoldsBatch inputs store roots) (input : BatchEntry) :
    HoldsBatch (inputs ++ [input])
      ((store.add input.key input.plugin input.text).2.withForm
        (store.add input.key input.plugin input.text).1 input.form)
      (roots ++ [(store.add input.key input.plugin input.text).1]) := by
  have known : input.key.lookup ∈ inputs.map (·.key.lookup) ↔ input.key.lookup ∈ store.names := by
    rw [holds.names, List.mem_eraseDups]
  have names : ((inputs ++ [input]).map (·.key.lookup)).eraseDups =
      if input.key.lookup ∈ inputs.map (·.key.lookup) then store.names
      else store.names ++ [input.key.lookup] := by
    rw [List.map_append, List.map_singleton, eraseDups_concat, holds.names]
  cases found : store.find? input.key with
  | some id =>
    have same : store.add input.key input.plugin input.text = (id, store) := by rw [add, found]
    obtain ⟨old, isOld, named⟩ := get?_of_find? found
    have listed : input.key.lookup ∈ store.names :=
      named ▸ List.mem_map_of_mem (List.mem_of_getElem? isOld)
    rw [same]
    refine ⟨?_, fun {other script} isFound => ?_, fun other => ?_⟩
    · rw [names_withForm, names, if_pos (known.2 listed)]
    · obtain ⟨before, given, isBefore, rfl⟩ := get?_withForm isFound
      exact (holds.entered isBefore).concat input
    · rw [List.mem_append, List.mem_singleton, holds.roots, mem_ids, mem_ids, size_withForm]
      exact ⟨fun either => either.elim (fun old => old) fun here => here ▸ mem_ids.1
        (mem_ids_of_get? isOld), .inl⟩
  | none =>
    have absent := find?_eq_none_iff.1 found
    let new : Script := { key := input.key, plugin := input.plugin, text := input.text }
    rw [add_of_none found]
    refine ⟨?_, fun {other script} isFound => ?_, fun other => ?_⟩
    · rw [names_withForm, names, if_neg fun listed => absent (known.1 listed)]
      exact List.map_append
    · obtain ⟨before, given, isBefore, rfl⟩ := get?_withForm isFound
      rcases Nat.lt_or_ge other.index store.scripts.length with old | later
      · rw [get?, List.getElem?_append_left old] at isBefore
        exact (holds.entered isBefore).concat input
      · rw [get?, List.getElem?_append_right later] at isBefore
        obtain rfl : before = new := List.mem_singleton.1 (List.mem_of_getElem? isBefore)
        refine ⟨rfl, input, ?_, rfl, rfl, rfl⟩
        have none : inputs.find? (·.key.lookup == input.key.lookup) = none :=
          List.find?_eq_none.2 fun entry listed named =>
            absent (known.1 (List.mem_map.2 ⟨entry, listed, by simpa using named⟩))
        rw [BatchEntry.first?, List.find?_append]
        dsimp only
        rw [none, Option.none_or]
        exact List.find?_cons_of_pos (beq_self_eq_true _)
    · rw [List.mem_append, List.mem_singleton, holds.roots, mem_ids, mem_ids, size_withForm]
      rcases other with ⟨index⟩
      simp only [size, List.length_append, List.length_singleton, ScriptId.mk.injEq]
      omega

theorem ofInputs_holds (inputs : List BatchEntry) :
    HoldsBatch inputs (ofInputs inputs).1 (ofInputs inputs).2 := by
  induction inputs using List.reverseRecOn with
  | nil =>
    refine ⟨rfl, fun {id script} listed => ?_, fun id => ?_⟩
    · simp [ofInputs, get?] at listed
    · simp [ofInputs, ids, size]
  | append_singleton inputs input holds =>
    rw [ofInputs_concat]
    exact holds.concat input

theorem linkState_nodup {σ : Type} {store : ScriptStore} (distinct : store.names.Nodup)
    (read : ScriptReader σ) (reader : σ) (source : ScriptSource) (roots : List ScriptId) :
    (store.linkState read reader source roots).store.names.Nodup := by
  refine List.foldlRecOn (motive := fun state : LinkState σ => state.store.names.Nodup) roots _
    distinct fun state once root _ => ?_
  refine LinkState.link_keeps (P := fun store => store.names.Nodup) ?_ ?_ _ root once
  · intro store id script reader once listed unread
    have names : (store.setReading id (LinkState.verdict read id script reader)).names =
        store.names := names_modify store id fun _ => rfl
    rw [names]
    exact once
  · intro store text entry found once listed absent offered
    have new := find?_eq_none_iff.1 absent
    rw [names, List.map_append, List.map_singleton]
    exact List.nodup_append'.2 ⟨once, List.nodup_singleton _, fun name old isNew =>
      new (List.mem_singleton.1 isNew ▸ old)⟩

section Batch

variable (inputs : List BatchEntry)

theorem ofInputs_nodup : (ofInputs inputs).1.names.Nodup := by
  rw [(ofInputs_holds inputs).names]
  exact eraseDups_nodup _

theorem ofInputs_unread : ∀ script ∈ (ofInputs inputs).1.scripts, script.reading = .unread := by
  intro script listed
  obtain ⟨index, isAt⟩ := List.mem_iff_getElem?.1 listed
  have found : (ofInputs inputs).1.get? ⟨index⟩ = some script := isAt
  exact ((ofInputs_holds inputs).entered found).1

theorem textOf?_ofInputs (source : ScriptSource) (name : FoldedName) :
    (ofInputs inputs).1.textOf? source name = BatchEntry.textOf? inputs source name := by
  have holds := ofInputs_holds inputs
  rw [textOf?, BatchEntry.textOf?]
  congr 1
  cases found : (ofInputs inputs).1.scripts.find? (·.key.lookup == name) with
  | some script =>
    have named : script.key.lookup = name := by simpa using List.find?_some found
    obtain ⟨index, isAt⟩ := List.mem_iff_getElem?.1 (List.mem_of_find?_eq_some found)
    have listed : (ofInputs inputs).1.get? ⟨index⟩ = some script := isAt
    obtain ⟨-, input, isFirst, -, -, text⟩ := holds.entered listed
    rw [← named, isFirst, Option.map_some, Option.map_some, text]
  | none =>
    have absent : name ∉ (ofInputs inputs).1.names := fun listed => by
      obtain ⟨script, inside, named⟩ := List.mem_map.1 listed
      exact List.find?_eq_none.1 found script inside (by simpa using named)
    rw [holds.names, List.mem_eraseDups] at absent
    have none : BatchEntry.first? inputs name = none :=
      List.find?_eq_none.2 fun entry listed named =>
        absent (List.mem_map.2 ⟨entry, listed, by simpa using named⟩)
    rw [none]
    rfl

theorem ofInputs_roots : ∀ root ∈ (ofInputs inputs).2, root ∈ (ofInputs inputs).1.ids :=
  fun root => ((ofInputs_holds inputs).roots root).1

variable {σ : Type} (read : ScriptReader σ) (reader : σ) (source : ScriptSource)

/-- The state in which all scripts of a batch and all they include are linked. -/
def inputsState : LinkState σ :=
  (ofInputs inputs).1.linkState read reader source (ofInputs inputs).2

def linkInputs : Linked σ := (ofInputs inputs).1.link read reader source (ofInputs inputs).2

theorem inputsState_links : LinkState.Links (ofInputs inputs).1.size source [] (ofInputs inputs).2
    { store := (ofInputs inputs).1, reader } (inputsState inputs read reader source) :=
  linkState_links read reader source (ofInputs_roots inputs)

theorem linkInputs_alike : Alike (inputsState inputs read reader source).store
    (linkInputs inputs read reader source).store := link_alike reader _ read source _

theorem inputsState_nodup : (inputsState inputs read reader source).store.names.Nodup :=
  linkState_nodup (ofInputs_nodup inputs) read reader source _

/-- All scripts of a linked batch were linked: those of the batch are roots, and what is fetched is
linked at once. -/
theorem visited_inputsState {id : ScriptId}
    (inside : id ∈ (inputsState inputs read reader source).store.ids) :
    id ∈ (inputsState inputs read reader source).visited := by
  have links := inputsState_links inputs read reader source
  rcases Nat.lt_or_ge id.index (ofInputs inputs).1.size with old | new
  · exact links.begun id (((ofInputs_holds inputs).roots id).2 (mem_ids.2 old))
  · exact links.joined id.index (mem_ids.1 inside) new

/-- A script of a linked batch is one of the state before, with what it depends on. -/
theorem get?_linkInputs (id : ScriptId) : (linkInputs inputs read reader source).store.get? id =
    ((inputsState inputs read reader source).store.get? id).map fun script => { script with
      dependencies := (inputsState inputs read reader source).graph.dependencies id } := by
  cases listed : (inputsState inputs read reader source).store.get? id with
  | none =>
    obtain ⟨dependencies, same⟩ := (linkInputs_alike inputs read reader source).scripts id
    rw [same, listed]
    rfl
  | some script =>
    have sound := (inputsState_links inputs read reader source).sound
    have visited := visited_inputsState inputs read reader source (mem_ids_of_get? listed)
    exact dependencies_link reader ((LinkState.mem_graph_scripts sound).2 visited) listed

theorem exists_linked {id : ScriptId} {script : Script}
    (listed : (ofInputs inputs).1.get? id = some script) :
    ∃ later, (linkInputs inputs read reader source).store.get? id = some later ∧
      later.key = script.key ∧ later.text = script.text := by
  obtain ⟨later, isLater, key, text, -⟩ :=
    (inputsState_links inputs read reader source).advances.grows.kept listed
  have linked := get?_linkInputs inputs read reader source id
  rw [isLater] at linked
  exact ⟨_, linked, key, text⟩

theorem wasRead_linkInputs {id : ScriptId} {script : Script}
    (listed : (linkInputs inputs read reader source).store.get? id = some script) :
    script.reading ≠ .unread := by
  rw [get?_linkInputs] at listed
  obtain ⟨old, isOld, rfl⟩ := Option.map_eq_some_iff.1 listed
  obtain ⟨known, isKnown, wasRead⟩ := (inputsState_links inputs read reader source).sound.known id
    (visited_inputsState inputs read reader source (mem_ids_of_get? isOld))
  obtain rfl := Option.some.inj (isKnown.symm.trans isOld)
  exact wasRead

theorem exists_draft_linkInputs {id : ScriptId}
    (listed : id ∈ (linkInputs inputs read reader source).order) :
    ∃ draft, (linkInputs inputs read reader source).store.draft? id = some draft := by
  have accepted : (linkInputs inputs read reader source).store.accepts id :=
    (List.mem_filter.1 listed).2
  obtain ⟨script, isScript, valid⟩ := (Option.any_eq_true ..).1 accepted
  have wasRead := wasRead_linkInputs inputs read reader source isScript
  rw [draft?, isScript, Option.bind_some, Script.draft?]
  rw [Script.isValid, Script.faults?] at valid
  cases reading : script.reading with
  | unread => exact absurd reading wasRead
  | read draft => exact ⟨draft, rfl⟩
  | faulty faults =>
    rw [reading] at valid
    cases valid

theorem text_linkInputs {read : ScriptReader σ} (honest : read.Honest) {id : ScriptId}
    {script : Script} (listed : (linkInputs inputs read reader source).store.get? id = some script) :
    BatchEntry.textOf? inputs source script.key.lookup = some script.text := by
  rw [get?_linkInputs] at listed
  obtain ⟨old, isOld, rfl⟩ := Option.map_eq_some_iff.1 listed
  have faithful : Faithful (ofInputs inputs).1 source (inputsState inputs read reader source).store :=
    linkState_faithful reader honest (ofInputs_nodup inputs) (ofInputs_unread inputs)
  rw [← textOf?_ofInputs]
  exact (faithful.text isOld :)

theorem isValid_linkInputs {read : ScriptReader σ} (honest : read.Honest) {id : ScriptId}
    {script : Script} (listed : (linkInputs inputs read reader source).store.get? id = some script) :
    script.isValid = parses script.text := by
  have wasRead := wasRead_linkInputs inputs read reader source listed
  rw [get?_linkInputs] at listed
  obtain ⟨old, isOld, rfl⟩ := Option.map_eq_some_iff.1 listed
  have faithful : Faithful (ofInputs inputs).1 source (inputsState inputs read reader source).store :=
    linkState_faithful reader honest (ofInputs_nodup inputs) (ofInputs_unread inputs)
  exact (faithful.reading isOld).resolve_left wasRead

end Batch

end ScriptStore

end ScriptMigration
