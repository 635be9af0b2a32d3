import Mathlib
import ScriptMigration.Text.Name

/-! Names are compared without the case of their letters, and what is no letter stays as it is. A name
that is made new is none of those that are taken, whatever case its letters have: the numbers behind a
name tell its candidates apart, and there is one candidate more than there are names. -/
namespace ScriptMigration

theorem sameName_iff_foldCase {left right : String} :
    sameName left right ↔ foldCase left = foldCase right := by
  rw [sameName, beq_iff_eq]
  exact ⟨congrArg FoldedName.text, congrArg FoldedName.mk⟩

theorem sameName_comm (left right : String) : sameName left right = sameName right left := BEq.comm

theorem toLower_eq_iff {c mark : Char} (plain : mark.isAlpha = false) : c.toLower = mark ↔ c = mark := by
  have outside : (mark.toNat < 65 ∨ 90 < mark.toNat) ∧ (mark.toNat < 97 ∨ 122 < mark.toNat) := by
    simp [Char.isAlpha, Char.isUpper, Char.isLower, UInt32.le_iff_toNat_le] at plain
    omega
  unfold Char.toLower
  split
  · -- a capital letter becomes a small one
    rename_i capital
    have low : 65 ≤ c.toNat := UInt32.le_iff_toNat_le.1 capital.1
    have high : c.toNat ≤ 90 := UInt32.le_iff_toNat_le.1 capital.2
    refine iff_of_false (fun same => ?_) fun same => ?_
    · have value : (c.val + 32).toNat = mark.toNat := congrArg (·.val.toNat) same
      rw [UInt32.toNat_add, show c.val.toNat = c.toNat from rfl] at value
      have step : UInt32.toNat 32 = 32 := rfl
      omega
    · subst same
      omega
  · rfl

theorem beq_toLower (mark : Char) (plain : mark.isAlpha = false) (c : Char) :
    (c.toLower == mark) = (c == mark) := by
  rw [Bool.eq_iff_iff, beq_iff_eq, beq_iff_eq]
  exact toLower_eq_iff plain

theorem FoldedName.text_append (left right : String) :
    (FoldedName.of (left ++ right)).text = (FoldedName.of left).text ++ (FoldedName.of right).text := by
  apply String.ext
  simp [FoldedName.of, String.toList_map, String.toList_append]

theorem toLower_of_isDigit {digit : Char} (isDigit : digit.isDigit) : digit.toLower = digit := by
  have range : '0'.val ≤ digit.val ∧ digit.val ≤ '9'.val := by
    simpa [Char.isDigit] using isDigit
  refine dif_neg fun upper => ?_
  have impossible := UInt32.le_trans upper.1 range.2
  exact absurd impossible (by decide)

theorem FoldedName.text_toString (number : Nat) :
    (FoldedName.of (toString number)).text = toString number := by
  apply String.ext
  rw [FoldedName.of, String.toList_map, Nat.toString_eq_ofList_toDigits, String.toList_ofList]
  refine (List.map_congr_left fun digit listed => ?_).trans (List.map_id _)
  exact toLower_of_isDigit (Nat.isDigit_of_mem_toDigits (by decide) (Nat.le_refl 10) listed)

theorem text_numbered (name : String) (number : Nat) : (FoldedName.of (numbered name number)).text =
    (FoldedName.of name).text ++ if number = 0 then "" else toString number := by
  unfold numbered
  by_cases isZero : number = 0
  · simp [isZero]
  · rw [if_neg (by simpa using isZero), if_neg isZero, FoldedName.text_append,
      FoldedName.text_toString]

theorem numbered_injective (name : String) :
    Function.Injective fun number => FoldedName.of (numbered name number) := by
  intro first second same
  have texts := congrArg FoldedName.text same
  simp only [text_numbered] at texts
  have numbers := (String.append_right_inj _).1 texts
  split at numbers <;> split at numbers
  · simp [*]
  · exact absurd numbers.symm Nat.repr_ne_empty
  · exact absurd numbers Nat.repr_ne_empty
  · have digits := congrArg (fun text => Nat.ofDigitChars 10 text.toList 0) numbers
    simpa [Nat.toString_eq_ofList_toDigits] using digits

theorem freshName_not_mem (taken : List FoldedName) (name : String) :
    FoldedName.of (freshName taken name) ∉ taken := by
  unfold freshName
  cases found : ((List.range (taken.length + 1)).map (numbered name)).find? fun candidate =>
      !taken.contains (.of candidate) with
  | some candidate => simpa using List.find?_some found
  | none =>
    -- all candidates would be taken, and there are too many of them
    have all : (List.range (taken.length + 1)).map (fun number => FoldedName.of (numbered name number))
        ⊆ taken := by
      intro candidate listed
      obtain ⟨number, among, rfl⟩ := List.mem_map.1 listed
      have isTaken := List.find?_eq_none.1 found _ (List.mem_map.2 ⟨number, among, rfl⟩)
      simpa using isTaken
    have distinct := List.Nodup.map (numbered_injective name) (List.nodup_range (n := taken.length + 1))
    have few := distinct.length_le_of_subset all
    rw [List.length_map, List.length_range] at few
    exact absurd few (Nat.not_succ_le_self _)

end ScriptMigration
