import Mathlib.Data.List.Basic
import ScriptMigration.Script.Store

/-! Stores of scripts: what is found under a number or a key after one script was changed or added. -/
namespace ScriptMigration.ScriptStore

variable {store : ScriptStore} {id : ScriptId} {draft : Draft} {key : ScriptKey}

theorem get?_modify (store : ScriptStore) (id other : ScriptId) (f : Script → Script) :
    (store.modify id f).get? other =
      if other = id then (store.get? other).map f else store.get? other := by
  rcases id with ⟨index⟩
  rcases other with ⟨place⟩
  simp only [get?, modify, List.getElem?_modify, ScriptId.mk.injEq, eq_comm (a := index)]
  split
  · rfl
  · exact Option.map_id' ..

theorem draft?_setDraft_of_ne {other : ScriptId} (differs : other ≠ id) :
    (store.setDraft id draft).draft? other = store.draft? other := by
  rw [draft?, setDraft, setReading, get?_modify, if_neg differs, draft?]

theorem draft?_setDraft {script : Script} (listed : store.get? id = some script) :
    (store.setDraft id draft).draft? id = some draft := by
  rw [draft?, setDraft, setReading, get?_modify, if_pos rfl, listed]
  rfl

theorem exists_script (found : store.draft? id = some draft) :
    ∃ script, store.get? id = some script ∧ script.draft? = some draft :=
  Option.bind_eq_some_iff.1 found

/-- The names under which the scripts of a store are found. -/
def names (store : ScriptStore) : List FoldedName := store.scripts.map (·.key.lookup)

theorem length_names (store : ScriptStore) : store.names.length = store.size := List.length_map ..

theorem find?_eq (store : ScriptStore) (key : ScriptKey) :
    store.find? key = (store.names.findIdx? (· == key.lookup)).map ScriptId.mk := by
  rw [find?, names, List.findIdx?_map]
  rfl

theorem find?_congr {other : ScriptStore} (same : other.names = store.names) (key : ScriptKey) :
    other.find? key = store.find? key := by
  rw [find?_eq, find?_eq, same]

theorem find?_eq_none_iff : store.find? key = none ↔ key.lookup ∉ store.names := by
  rw [find?_eq, Option.map_eq_none_iff, List.findIdx?_eq_none_iff]
  constructor
  · intro none listed
    simpa using none key.lookup listed
  · intro absent name listed
    simpa using fun same : name = key.lookup => absent (same ▸ listed)

theorem get?_of_find? (found : store.find? key = some id) :
    ∃ script, store.get? id = some script ∧ script.key.lookup = key.lookup := by
  obtain ⟨index, isIndex, rfl⟩ := Option.map_eq_some_iff.1 found
  obtain ⟨bound, matching, -⟩ := List.findIdx?_eq_some_iff_getElem.1 isIndex
  exact ⟨store.scripts[index], List.getElem?_eq_getElem bound, by simpa using matching⟩

theorem names_modify (store : ScriptStore) (id : ScriptId) {f : Script → Script}
    (keeps : ∀ script, (f script).key = script.key) : (store.modify id f).names = store.names := by
  refine List.ext_getElem? fun index => ?_
  simp only [names, modify, List.getElem?_map, List.getElem?_modify]
  cases store.scripts[index]? with
  | none => rfl
  | some script =>
    split
    · exact congrArg (fun key => some key.lookup) (keeps script)
    · rfl

/-- A script that was not found yet is added at the end. -/
theorem add_of_none (absent : store.find? key = none) (plugin : Plugin) (text : String) :
    store.add key plugin text =
      (⟨store.size⟩, ⟨store.scripts ++ [({ key, plugin, text } : Script)]⟩) := by
  rw [add, absent]

theorem find?_append_of_some {scripts : List Script} (found : store.find? key = some id) :
    find? ⟨store.scripts ++ scripts⟩ key = some id := by
  obtain ⟨index, isIndex, rfl⟩ := Option.map_eq_some_iff.1 found
  rw [find?, List.findIdx?_append, isIndex]
  rfl

theorem find?_append_new (absent : store.find? key = none) {script : Script}
    (named : script.key.lookup = key.lookup) :
    find? ⟨store.scripts ++ [script]⟩ key = some ⟨store.size⟩ := by
  have none := Option.map_eq_none_iff.1 absent
  rw [find?, List.findIdx?_append, none]
  simp [List.findIdx?_cons, named, size]

theorem get?_append_of_some {scripts : List Script} {script : Script}
    (listed : store.get? id = some script) :
    get? ⟨store.scripts ++ scripts⟩ id = some script := by
  obtain ⟨bound, -⟩ := List.getElem?_eq_some_iff.1 listed
  rw [get?, List.getElem?_append_left bound]
  exact listed

end ScriptMigration.ScriptStore
