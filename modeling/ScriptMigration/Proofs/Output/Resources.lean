import ScriptMigration.Output.Resources
import ScriptMigration.Proofs.List.Repeats
import ScriptMigration.Proofs.Text.Name

/-! The names of localized texts. However many texts a table is given, a name stands for one text, from
the time when it is given: new entries are only added behind the old ones, and their names are new
whatever case their letters have. -/
namespace ScriptMigration

namespace ResourceTable

variable {table : ResourceTable} {start value : String} {entry : ResourceText}

theorem mem_of_find? (found : table.find? value = some entry) :
    entry ∈ table.entries ∧ entry.value = value :=
  ⟨List.mem_of_find?_eq_some found, by simpa using List.find?_some found⟩

theorem find?_isSome_iff : (table.find? value).isSome ↔ ∃ entry ∈ table.entries, entry.value = value := by
  simp [find?]

/-- No two entries have the same text, or names that differ in case only. -/
structure Distinct (table : ResourceTable) : Prop where
  values : (table.entries.map (·.value)).Nodup
  names : (table.entries.map fun entry => FoldedName.of entry.name).Nodup

namespace Distinct

variable {other : ResourceText} (distinct : table.Distinct) (listed : entry ∈ table.entries)

include distinct listed

theorem eq_of_value (also : other ∈ table.entries) (same : entry.value = other.value) :
    entry = other :=
  List.inj_on_of_nodup_map distinct.values listed also same

theorem eq_of_sameName (also : other ∈ table.entries) (same : sameName entry.name other.name) :
    entry = other :=
  List.inj_on_of_nodup_map distinct.names listed also (eq_of_beq same)

theorem find?_value : table.find? entry.value = some entry :=
  find?_of_nodup_map ResourceText.value distinct.values listed

theorem get?_name : table.get? entry.name = some entry.value := by
  have names : (table.entries.map (·.name)).Nodup := by
    refine .of_map FoldedName.of ?_
    rw [List.map_map]
    exact distinct.names
  exact congrArg (Option.map (·.value)) (find?_of_nodup_map ResourceText.name names listed)

end Distinct

theorem intern_cases (table : ResourceTable) (start value : String) :
    ∃ entry, entry.value = value ∧ (table.intern start value).1 = entry.name ∧
      (entry ∈ table.entries ∧ (table.intern start value).2 = table ∨
        (∀ old ∈ table.entries, old.value ≠ value ∧ ¬ sameName old.name entry.name) ∧
          (table.intern start value).2.entries = table.entries ++ [entry]) := by
  unfold intern
  cases found : table.find? value with
  | some entry =>
    obtain ⟨listed, same⟩ := mem_of_find? found
    exact ⟨entry, same, rfl, .inl ⟨listed, rfl⟩⟩
  | none =>
    refine ⟨⟨_, value⟩, rfl, rfl, .inr ⟨fun old listed => ⟨fun same => ?_, fun same => ?_⟩, rfl⟩⟩
    · exact List.find?_eq_none.1 found old listed (by simpa using same)
    · refine freshName_not_mem (table.entries.map fun entry => FoldedName.of entry.name)
        (start ++ nameOf value) (List.mem_map.2 ⟨old, listed, eq_of_beq same⟩)

theorem Distinct.intern (distinct : table.Distinct) (start value : String) :
    (table.intern start value).2.Distinct := by
  obtain ⟨entry, isEntry, -, ⟨-, same⟩ | ⟨differs, added⟩⟩ := table.intern_cases start value
  · rwa [same]
  · constructor
    · rw [added, List.map_append]
      refine List.nodup_append'.2 ⟨distinct.values, List.nodup_singleton _, fun old listed new => ?_⟩
      obtain ⟨earlier, among, rfl⟩ := List.mem_map.1 listed
      exact (differs earlier among).1 ((List.mem_singleton.1 new).trans isEntry)
    · rw [added, List.map_append]
      refine List.nodup_append'.2 ⟨distinct.names, List.nodup_singleton _, fun old listed new => ?_⟩
      obtain ⟨earlier, among, rfl⟩ := List.mem_map.1 listed
      exact (differs earlier among).2 (beq_iff_eq.2 (List.mem_singleton.1 new))

end ResourceTable

namespace ResourceIndex

structure Indexes (index : ResourceIndex) (table : ResourceTable) : Prop where
  entries : index.entries = table.entries
  byValue : ∀ value : String, index.byValue[value]? = table.entries.findIdx? (·.value == value)
  names : ∀ name, index.names.contains name = (table.entries.map fun entry => .of entry.name).contains name

namespace Indexes

variable {index : ResourceIndex} {table : ResourceTable}

theorem nil : Indexes {} {} where
  entries := rfl
  byValue value := by simp
  names name := by simp

theorem newName_eq (indexes : index.Indexes table) (name : String) :
    index.newName name = freshName (table.entries.map fun entry => .of entry.name) name := by
  rw [newName, freshName, List.length_map, indexes.entries]
  simp only [indexes.names]

theorem intern (indexes : index.Indexes table) (start value : String) :
    (index.intern start value).1 = (table.intern start value).1 ∧
      (index.intern start value).2.Indexes (table.intern start value).2 := by
  rw [ResourceIndex.intern, indexes.byValue, indexes.newName_eq, ResourceTable.intern]
  cases found : table.find? value with
  | some entry =>
    obtain ⟨fits, number, inside, isEntry, before⟩ := List.find?_eq_some_iff_getElem.1 found
    have isNumber : table.entries.findIdx? (·.value == value) = some number :=
      List.findIdx?_eq_some_iff_getElem.2 ⟨inside, isEntry ▸ fits, fun earlier less => by
        simpa using before earlier less⟩
    have first : table.entries[number]? = some entry := List.getElem?_eq_some_iff.2 ⟨inside, isEntry⟩
    rw [isNumber]
    dsimp only
    rw [indexes.entries, first]
    exact ⟨rfl, indexes⟩
  | none =>
    have absent : table.entries.findIdx? (·.value == value) = none :=
      List.findIdx?_eq_none_iff.2 fun entry listed => by
        simpa using List.find?_eq_none.1 found entry listed
    rw [absent]
    refine ⟨rfl, by rw [indexes.entries], fun other => ?_, fun name => ?_⟩
    · dsimp only
      rw [Std.HashMap.getElem?_insert, List.findIdx?_append, indexes.byValue, indexes.entries]
      by_cases same : value = other
      · subst same
        simp [absent]
      · simp [same]
    · rw [Std.HashSet.contains_insert, indexes.names, List.map_append, List.contains_append,
        List.map_singleton, List.contains_cons, List.contains_nil, Bool.or_false, Bool.or_comm, BEq.comm]

theorem foldl_intern (indexes : index.Indexes table) (start : String) (texts : List String) :
    (texts.foldl (fun index text => (ResourceIndex.intern index start text).2) index).Indexes
      (texts.foldl (fun table text => (ResourceTable.intern table start text).2) table) := by
  induction texts generalizing index table with
  | nil => exact indexes
  | cons text texts ih => exact ih (indexes.intern start text).2

end Indexes

theorem intern_foldl (start : String) (texts : List String) (text : String) :
    (ResourceIndex.intern (texts.foldl (fun index text => (ResourceIndex.intern index start text).2) {})
        start text).1 =
      (ResourceTable.intern (texts.foldl (fun table text => (ResourceTable.intern table start text).2) {})
        start text).1 :=
  ((Indexes.nil.foldl_intern start texts).intern start text).1

end ResourceIndex

/-- A table, and the texts that it was given with the names that it gave them. -/
structure Interning where
  table : ResourceTable := {}
  answers : List ResourceText := []

namespace Interning

variable {start : String} {texts : List String}

def next (start : String) (interning : Interning) (text : String) : Interning where
  table := (interning.table.intern start text).2
  answers := interning.answers ++ [⟨(interning.table.intern start text).1, text⟩]

def after (start : String) (texts : List String) : Interning := texts.foldl (next start) {}

theorem after_concat (start : String) (texts : List String) (text : String) :
    after start (texts ++ [text]) = (after start texts).next start text := List.foldl_concat ..

structure InStep (interning : Interning) : Prop extends interning.table.Distinct where
  listed : interning.table.entries = interning.answers.eraseDups

theorem InStep.next {interning : Interning} (inStep : interning.InStep) (start text : String) :
    (interning.next start text).InStep := by
  refine ⟨inStep.toDistinct.intern start text, ?_⟩
  have same (entry : ResourceText) : entry ∈ interning.table.entries ↔ entry ∈ interning.answers := by
    rw [inStep.listed, List.mem_eraseDups]
  obtain ⟨⟨name, _⟩, rfl, isName, ⟨listed, kept⟩ | ⟨differs, added⟩⟩ :=
    interning.table.intern_cases start text
  · simp only [Interning.next]
    rw [kept, isName, eraseDups_concat, if_pos ((same _).1 listed), inStep.listed]
  · simp only [Interning.next]
    rw [added, isName, eraseDups_concat, if_neg, inStep.listed]
    exact fun old => (differs _ ((same _).2 old)).1 rfl

theorem inStep_after (start : String) (texts : List String) : (after start texts).InStep := by
  induction texts using List.reverseRecOn with
  | nil => exact ⟨⟨List.nodup_nil, List.nodup_nil⟩, rfl⟩
  | append_singleton texts text ih =>
    rw [after_concat]
    exact ih.next start text

theorem value_answers (start : String) (texts : List String) :
    (after start texts).answers.map (·.value) = texts := by
  induction texts using List.reverseRecOn with
  | nil => rfl
  | append_singleton texts text ih => rw [after_concat, next, List.map_append, ih, List.map_singleton]

theorem mem_answers_append {entry : ResourceText} (given : entry ∈ (after start texts).answers)
    (more : List String) : entry ∈ (after start (texts ++ more)).answers := by
  induction more using List.reverseRecOn with
  | nil => rwa [List.append_nil]
  | append_singleton more text ih =>
    rw [← List.append_assoc, after_concat]
    exact List.mem_append_left _ ih

theorem InStep.mem_entries {interning : Interning} (inStep : interning.InStep) {entry : ResourceText} :
    entry ∈ interning.table.entries ↔ entry ∈ interning.answers := by
  rw [inStep.listed, List.mem_eraseDups]

/-- The names that a table gave to texts identify them: each text was given one name, different texts
have names that differ in more than case, a name keeps giving its text, and the entries are the answers
in the order in which they were first given. -/
structure Identifies (start : String) (texts : List String) : Prop where
  values : (after start texts).answers.map (·.value) = texts
  names : ∀ first ∈ (after start texts).answers, ∀ second ∈ (after start texts).answers,
    (first.name = second.name ↔ first.value = second.value) ∧
      (first.value ≠ second.value → ¬ sameName first.name second.name)
  lasts : ∀ entry ∈ (after start texts).answers, ∀ more,
    (after start (texts ++ more)).table.get? entry.name = some entry.value
  order : (after start texts).table.entries = (after start texts).answers.eraseDups

theorem identifies (start : String) (texts : List String) : Identifies start texts := by
  have inStep := inStep_after start texts
  refine ⟨value_answers start texts, fun first given second also => ?_, fun entry given more => ?_,
    inStep.listed⟩
  · have listed := inStep.mem_entries.2 given
    have alsoListed := inStep.mem_entries.2 also
    have differ (differs : first.value ≠ second.value) : ¬ sameName first.name second.name :=
      fun same => differs (congrArg _ (inStep.toDistinct.eq_of_sameName listed alsoListed same))
    refine ⟨⟨fun same => ?_, fun same => ?_⟩, differ⟩
    · by_contra differs
      exact differ differs (by rw [same, sameName, beq_self_eq_true])
    · exact congrArg _ (inStep.toDistinct.eq_of_value listed alsoListed same)
  · have later := inStep_after start (texts ++ more)
    exact later.toDistinct.get?_name (later.mem_entries.2 (mem_answers_append given more))

example : (after "Str" ["Save changes?", "save, changes", "Save changes?"]).answers =
    [⟨"StrSaveChanges", "Save changes?"⟩, ⟨"StrSaveChanges1", "save, changes"⟩,
      ⟨"StrSaveChanges", "Save changes?"⟩] := by decide +kernel

theorem table_after (start : String) (texts : List String) : (after start texts).table =
    texts.foldl (fun table text => (table.intern start text).2) {} := by
  induction texts using List.reverseRecOn with
  | nil => rfl
  | append_singleton texts text ih => rw [after_concat, List.foldl_concat, ← ih, next]

theorem find?_isSome_iff {text : String} :
    ((after start texts).table.find? text).isSome ↔ text ∈ texts := by
  rw [ResourceTable.find?_isSome_iff]
  simp only [(inStep_after start texts).mem_entries]
  conv_rhs => rw [← value_answers start texts, List.mem_map]

end Interning

end ScriptMigration
