import Mathlib.Data.List.Induction
import Mathlib.Data.List.Nodup

/-! Lists from which repeated items are taken: the first of equal items stays, and where items count as
equal that have the same key, the keys are left as if they stood alone. -/
namespace ScriptMigration

variable {α β : Type} [DecidableEq α] [DecidableEq β]

theorem eraseDups_concat (items : List α) (item : α) : (items ++ [item]).eraseDups =
    if item ∈ items then items.eraseDups else items.eraseDups ++ [item] := by
  have rest : [item].removeAll items = if item ∈ items then [] else [item] := by
    by_cases listed : item ∈ items <;> simp [List.removeAll, listed]
  rw [List.eraseDups_append, rest]
  split
  · simp
  · simp [List.eraseDups_cons]

theorem eraseDups_nodup (items : List α) : items.eraseDups.Nodup := by
  induction items using List.reverseRecOn with
  | nil => exact List.nodup_nil
  | append_singleton items item ih =>
    rw [eraseDups_concat]
    split
    · exact ih
    · rename_i new
      exact List.nodup_append'.2 ⟨ih, List.nodup_singleton _, fun other old isNew =>
        new (List.mem_singleton.1 isNew ▸ List.mem_eraseDups.1 old)⟩

theorem eraseDups_filter (p : α → Bool) (items : List α) :
    (items.filter p).eraseDups = items.eraseDups.filter p := by
  induction items using List.reverseRecOn with
  | nil => rfl
  | append_singleton items item ih =>
    rw [List.filter_append, eraseDups_concat]
    cases kept : p item with
    | false => split <;> simp [kept, ih]
    | true =>
      rw [List.filter_cons_of_pos kept, List.filter_nil, eraseDups_concat]
      by_cases listed : item ∈ items
      · rw [if_pos (List.mem_filter.2 ⟨listed, kept⟩), if_pos listed, ih]
      · rw [if_neg fun among => listed (List.mem_filter.1 among).1, if_neg listed, ih,
          List.filter_append, List.filter_cons_of_pos kept, List.filter_nil]

theorem eraseDups_map (f : α → β) {items : List α}
    (apart : ∀ left ∈ items, ∀ right ∈ items, f left = f right → left = right) :
    (items.map f).eraseDups = items.eraseDups.map f := by
  induction items using List.reverseRecOn with
  | nil => rfl
  | append_singleton items item ih =>
    have earlier : ∀ other ∈ items, other ∈ items ++ [item] := fun _ => List.mem_append_left _
    rw [List.map_append, List.map_singleton, eraseDups_concat, eraseDups_concat,
      ih fun left first right second => apart left (earlier left first) right (earlier right second)]
    by_cases listed : item ∈ items
    · rw [if_pos (List.mem_map.2 ⟨item, listed, rfl⟩), if_pos listed]
    · rw [if_neg listed, if_neg, List.map_append, List.map_singleton]
      intro among
      obtain ⟨other, isOther, same⟩ := List.mem_map.1 among
      exact listed (apart other (earlier other isOther) item (by simp) same ▸ isOther)

section ByKey

variable {α β : Type} [DecidableEq β] (key : α → β)

theorem eraseDupsBy_cons (item : α) (items : List α) :
    (item :: items).eraseDupsBy (key · == key ·) =
      item :: (items.filter (key · != key item)).eraseDupsBy (key · == key ·) := by
  rw [List.eraseDupsBy_cons]
  have others (other : α) : decide ((key other == key item) = false) = (key other != key item) := by
    cases same : key other == key item <;> simp [bne, same]
  simp only [others]

theorem map_eraseDupsBy (items : List α) :
    (items.eraseDupsBy (key · == key ·)).map key = (items.map key).eraseDups := by
  cases items with
  | nil => rfl
  | cons item items =>
    rw [eraseDupsBy_cons, List.map_cons, List.map_cons, List.eraseDups_cons,
      map_eraseDupsBy, List.filter_map]
    rfl
termination_by items.length
decreasing_by exact Nat.lt_succ_of_le (List.length_filter_le ..)

theorem mem_eraseDupsBy {item : α} {items : List α} :
    item ∈ items.eraseDupsBy (key · == key ·) ↔ items.find? (key · == key item) = some item := by
  cases items with
  | nil => simp
  | cons first items =>
    rw [eraseDupsBy_cons, List.mem_cons, mem_eraseDupsBy, List.find?_filter]
    by_cases same : key first = key item
    · rw [List.find?_cons_of_pos (by simpa using same), or_iff_left, Option.some_inj, eq_comm]
      intro found
      have differs := List.find?_some found
      simp [same] at differs
    · have others (other : α) : decide ((key other != key first) = true ∧
          (key other == key item) = true) = (key other == key item) := by
        by_cases isItem : key other = key item
        · simp [isItem, Ne.symm same]
        · simp [isItem]
      simp only [others]
      rw [List.find?_cons_of_neg (by simpa using same), or_iff_right]
      rintro rfl
      exact same rfl
termination_by items.length
decreasing_by exact Nat.lt_succ_of_le (List.length_filter_le ..)

theorem eraseDupsBy_of_nodup_map {items : List α} (once : (items.map key).Nodup) :
    items.eraseDupsBy (key · == key ·) = items := by
  induction items with
  | nil => rfl
  | cons item items ih =>
    obtain ⟨new, once⟩ := List.nodup_cons.1 once
    have others : items.filter (key · != key item) = items := List.filter_eq_self.2 fun other listed =>
      bne_iff_ne.2 fun same => new (List.mem_map.2 ⟨other, listed, same⟩)
    rw [eraseDupsBy_cons, others, ih once]

/-- Where no two items have the same key, every item is the first of its key. -/
theorem find?_of_nodup_map {item : α} {items : List α} (once : (items.map key).Nodup)
    (listed : item ∈ items) : items.find? (key · == key item) = some item := by
  cases found : items.find? (key · == key item) with
  | none => exact absurd (beq_self_eq_true (key item)) (List.find?_eq_none.1 found item listed)
  | some other =>
    have same : key other = key item := by simpa using List.find?_some found
    rw [List.inj_on_of_nodup_map once (List.mem_of_find?_eq_some found) listed same]

end ByKey

end ScriptMigration
