import ScriptMigration.Proofs.Draft.Prepared
import ScriptMigration.Proofs.Migration.Caching
import ScriptMigration.Proofs.Resolution.Referred

/-! What a linked batch is before and after its scripts are resolved. Every tree in it is that of a
module that was parsed, whichever cache it came through, and its forms are those of the batch; and when
the scripts are resolved in order, what is noted of each refers to what the batch declares. -/
namespace ScriptMigration

def ModuleCache.Parsed (cache : ModuleCache) : Prop :=
  ∀ entry ∈ cache.modules.entries, ∃ text name, parseModule text name = .ok entry.2.module

theorem ModuleCache.Parsed.parse {cache : ModuleCache} (parsed : cache.Parsed) (held : Holding)
    (text name : String) :
    (∀ found, (cache.parse held text name).1 = .ok found →
      ∃ text name, parseModule text name = .ok found.module) ∧
    (cache.parse held text name).2.Parsed := by
  rcases cache.parse_cases held text name with ⟨hit, isHit, listed, entries⟩ |
    ⟨faults, failed, _, entries⟩ | ⟨new, isNew, isParsed, entries⟩
  · refine And.intro (fun found same => ?_) fun entry inside => parsed entry (entries ▸ inside)
    obtain rfl := Except.ok.inj (isHit.symm.trans same)
    exact parsed _ listed
  · refine And.intro (fun found same => ?_) fun entry inside => parsed entry (entries ▸ inside)
    exact nomatch failed.symm.trans same
  · refine And.intro (fun found same => ?_) fun entry inside => ?_
    · obtain rfl := Except.ok.inj (isNew.symm.trans same)
      exact ⟨text, name, isParsed⟩
    · rcases entries entry inside with rfl | old
      · exact ⟨text, name, isParsed⟩
      · exact parsed entry old

namespace ScriptStore

variable {store : ScriptStore}

def ForeignForms (store : ScriptStore) : Prop :=
  ∀ id script, store.get? id = some script →
    ∀ form, script.form = some form → form.Foreign

/-- Every tree is that of a module that was read, or what became of it by changes that need no types. -/
def Prepared (store : ScriptStore) : Prop :=
  ∀ id draft, store.draft? id = some draft → draft.Prepared

section Linked

theorem ForeignForms.withForm (forms : store.ForeignForms) (id : ScriptId) {given : Option HostForm}
    (foreign : ∀ form, given = some form → form.Foreign) :
    (store.withForm id given).ForeignForms := by
  cases given with
  | none => exact forms
  | some form =>
    intro other script listed found isForm
    rw [ScriptStore.withForm, get?_modify] at listed
    split at listed
    · obtain ⟨old, _, rfl⟩ := Option.map_eq_some_iff.1 listed
      exact foreign found isForm
    · exact forms other script listed found isForm

theorem ForeignForms.append (forms : store.ForeignForms) {new : Script} (none : new.form = none) :
    ForeignForms ⟨store.scripts ++ [new]⟩ := by
  intro id script listed form isForm
  rcases Nat.lt_or_ge id.index store.scripts.length with old | later
  · rw [get?, List.getElem?_append_left old] at listed
    exact forms id script listed form isForm
  · rw [get?, List.getElem?_append_right later] at listed
    obtain rfl := List.mem_singleton.1 (List.mem_of_getElem? listed)
    cases none.symm.trans isForm

theorem Prepared.append (prepared : store.Prepared) {new : Script} (none : new.draft? = none) :
    Prepared ⟨store.scripts ++ [new]⟩ := by
  intro id draft found
  obtain ⟨script, listed, isDraft⟩ := exists_script found
  rcases Nat.lt_or_ge id.index store.scripts.length with old | later
  · rw [get?, List.getElem?_append_left old] at listed
    exact prepared id draft (Option.bind_eq_some_iff.2 ⟨script, listed, isDraft⟩)
  · rw [get?, List.getElem?_append_right later] at listed
    obtain rfl := List.mem_singleton.1 (List.mem_of_getElem? listed)
    cases none.symm.trans isDraft

theorem ofInputs_forms {inputs : List BatchEntry}
    (foreign : ∀ input ∈ inputs, ∀ form, input.form = some form → form.Foreign) :
    (ofInputs inputs).1.ForeignForms := by
  induction inputs using List.reverseRecOn with
  | nil => exact fun id script listed => by simp [ofInputs, get?] at listed
  | append_singleton inputs input ih =>
    have before := ih fun other listed => foreign other (List.mem_append_left _ listed)
    rw [ofInputs_concat]
    refine ForeignForms.withForm ?_ _ (foreign input (by simp))
    rcases found : (ofInputs inputs).1.find? input.key with _ | id
    · rw [add_of_none found]
      exact before.append rfl
    · rw [add, found]
      exact before

theorem ofInputs_prepared (inputs : List BatchEntry) : (ofInputs inputs).1.Prepared := by
  intro id draft found
  obtain ⟨script, listed, isDraft⟩ := exists_script found
  have unread := ofInputs_unread inputs script (List.mem_of_getElem? listed)
  rw [Script.draft?, unread] at isDraft
  cases isDraft

theorem links_forms {σ : Type} (read : ScriptReader σ) (source : ScriptSource) (texts : List String) :
    read.Mimics read id source texts fun store _ _ => store.ForeignForms := by
  refine ⟨fun {store number script reader asked} forms _ _ _ => ⟨rfl, ?_⟩,
    fun forms _ _ => forms, fun forms _ _ => forms.append rfl⟩
  intro other new isNew form isForm
  rw [setReading, get?_modify] at isNew
  split at isNew
  · obtain ⟨old, isOld, rfl⟩ := Option.map_eq_some_iff.1 isNew
    exact forms other old isOld form isForm
  · exact forms other new isNew form isForm

theorem linkInputs_forms {inputs : List BatchEntry}
    (foreign : ∀ input ∈ inputs, ∀ form, input.form = some form → form.Foreign) {σ : Type}
    (read : ScriptReader σ) (reader : σ) (source : ScriptSource) :
    (linkInputs inputs read reader source).store.ForeignForms := by
  have fits := List.Subset.refl (inputsState inputs read reader source).store.texts
  have mimics : read.Mimics read id source _ fun store (_ : σ) _ => store.ForeignForms :=
    links_forms read source (inputsState inputs read reader source).store.texts
  have forms := (linkState_mimics mimics (ofInputs_forms foreign) fits).1
  intro id script listed form isForm
  rw [get?_linkInputs] at listed
  obtain ⟨old, isOld, rfl⟩ := Option.map_eq_some_iff.1 listed
  exact forms id old isOld form isForm

def Parses (store : ScriptStore) (reader : CachingReader) (_ : List ScriptKey) : Prop :=
  store.Prepared ∧ reader.cache.Parsed

theorem read_parses (held : ModuleCache.Holding) (source : ScriptSource) (texts : List String) :
    (CachingReader.read held).Mimics (CachingReader.read held) id source texts Parses := by
  refine ⟨fun {store number script reader asked} ⟨prepared, parsed⟩ listed _ _ => ⟨rfl, ?_⟩,
    fun keeps _ _ => keeps, fun ⟨prepared, parsed⟩ _ _ => ⟨prepared.append rfl, parsed⟩⟩
  obtain ⟨sure, later⟩ := parsed.parse (reader.holds held) script.text script.key.name
  constructor
  · intro other draft listedDraft
    obtain ⟨new, isNew, isDraft⟩ := exists_script listedDraft
    rw [setReading, get?_modify] at isNew
    split at isNew
    · obtain ⟨old, _, rfl⟩ := Option.map_eq_some_iff.1 isNew
      rw [Script.draft?] at isDraft
      unfold LinkState.verdict CachingReader.read at isDraft
      rcases result : reader.cache.parse (reader.holds held) script.text script.key.name with
        ⟨faults | read, cache⟩
      · rw [result] at isDraft
        cases isDraft
      · rw [result] at isDraft sure
        obtain rfl := Option.some.inj isDraft
        obtain ⟨text, name, isParsed⟩ := sure read rfl
        exact .read isParsed
    · exact prepared other draft (Option.bind_eq_some_iff.2 ⟨new, isNew, isDraft⟩)
  · unfold CachingReader.read
    rcases result : reader.cache.parse (reader.holds held) script.text script.key.name with
      ⟨faults | found, cache⟩ <;>
    · rw [result] at later
      exact later

theorem linkInputs_parses (inputs : List BatchEntry) {cache : ModuleCache} (parsed : cache.Parsed)
    (held : ModuleCache.Holding) (source : ScriptSource) :
    Parses (linkInputs inputs (CachingReader.read held) { cache } source).store
      (linkInputs inputs (CachingReader.read held) { cache } source).reader [] := by
  have start : Parses (ofInputs inputs).1 { cache } [] := ⟨ofInputs_prepared inputs, parsed⟩
  obtain ⟨prepared, later⟩ := (linkState_mimics (read_parses held source _) start
    (List.Subset.refl
      (inputsState inputs (CachingReader.read held) { cache } source).store.texts)).1
  refine ⟨fun id draft found => ?_, later⟩
  obtain ⟨script, listed, isDraft⟩ := exists_script found
  rw [get?_linkInputs] at listed
  obtain ⟨old, isOld, rfl⟩ := Option.map_eq_some_iff.1 listed
  exact prepared id draft (Option.bind_eq_some_iff.2 ⟨old, isOld, isDraft⟩)

end Linked

end ScriptStore

end ScriptMigration
