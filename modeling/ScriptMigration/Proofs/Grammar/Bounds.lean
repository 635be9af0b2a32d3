import Mathlib.Data.List.Forall2
import ScriptMigration.Proofs.Grammar.Modules

/-! The lengths of arrays. A bound that is written as a whole number has no sign, so its dimension has one
element more. Only the greatest integer has none after it: where the lengths are counted that far, the sum
overflows. -/
namespace ScriptMigration

theorem toInt_add_one {upper : Int64} (unsigned : 0 ≤ upper) (smaller : upper ≠ .maxValue) :
    (upper + 1).toInt = upper.toInt + 1 := by
  rw [Int64.le_iff_toInt_le] at unsigned
  have bound := Int64.toInt_le upper
  have apart : upper.toInt ≠ Int64.maxValue.toInt := fun same => smaller (Int64.toInt_inj.1 same)
  rw [Int64.toInt_maxValue] at bound apart
  have positive : 0 ≤ upper.toInt := unsigned
  have one : (1 : Int64).toInt = 1 := rfl
  rw [Int64.toInt_add, one, Int.bmod_eq_of_le] <;> omega

namespace Node

def integer? (node : Node) : Option Int64 :=
  match node.shape with
  | .literal (.int value) => some value
  | _ => none

variable {node bound : Node} {value : Int64}

theorem unsigned_of_integer? (unsigned : node.shape.isUnsigned) (isInteger : node.integer? = some value) :
    0 ≤ value := by
  unfold integer? at isInteger
  split at isInteger
  · rename_i written shape
    obtain rfl := Option.some.inj isInteger
    rw [shape] at unsigned
    exact of_decide_eq_true unsigned
  · exact nomatch isInteger

theorem fixedLength?_eq (unsigned : bound.shape.isUnsigned) :
    bound.fixedLength? = match bound.integer? with
      | none => .ok none
      | some upper => if upper = .maxValue then .error .overflow else .ok (some (upper + 1)) := by
  obtain ⟨info, shape⟩ := bound
  cases shape with
  | literal written =>
    cases written with
    | int upper =>
      have nonneg : ¬ upper < 0 := Int64.not_lt.2 (of_decide_eq_true unsigned)
      simp [fixedLength?, integer?, shape, nonneg]
    | _ => rfl
  | _ => rfl

def Overflows (bounds : List Node) : Prop :=
  ∃ before greatest after, bounds = before ++ greatest :: after ∧ greatest.integer? = some .maxValue ∧
    ∀ bound ∈ before, bound.integer?.isSome

theorem not_overflows_nil : ¬ Overflows [] := by
  rintro ⟨before, greatest, after, split, -⟩
  simp at split

theorem overflows_cons {rest : List Node} : Overflows (bound :: rest) ↔
    bound.integer? = some .maxValue ∨ bound.integer?.isSome ∧ Overflows rest := by
  constructor
  · rintro ⟨before, greatest, after, split, isGreatest, integers⟩
    cases before with
    | nil =>
      obtain ⟨rfl, -⟩ := List.cons.inj split
      exact .inl isGreatest
    | cons first before =>
      obtain ⟨rfl, rfl⟩ := List.cons.inj split
      rw [List.forall_mem_cons] at integers
      exact .inr ⟨integers.1, before, greatest, after, rfl, isGreatest, integers.2⟩
  · rintro (isGreatest | ⟨isInteger, before, greatest, after, rfl, isGreatest, integers⟩)
    · exact ⟨[], bound, rest, rfl, isGreatest, nofun⟩
    · exact ⟨bound :: before, greatest, after, rfl, isGreatest,
        List.forall_mem_cons.2 ⟨isInteger, integers⟩⟩

def IsLength (bound : Node) (length : Int64) : Prop :=
  ∃ upper, bound.integer? = some upper ∧ 0 ≤ upper.toInt ∧ length.toInt = upper.toInt + 1

theorem integer_of_forall₂ {bounds : List Node} {lengths : List Int64}
    (each : List.Forall₂ IsLength bounds lengths) (listed : bound ∈ bounds) :
    ∃ upper, bound.integer? = some upper := by
  induction each with
  | nil => cases listed
  | cons isLength _ ih =>
    cases listed with
    | head =>
      obtain ⟨upper, isUpper, -⟩ := isLength
      exact ⟨upper, isUpper⟩
    | tail _ listed => exact ih listed

inductive Counts (bounds : List Node) : Except Overflow (Option (List Int64)) → Prop where
  | overflow : Overflows bounds → Counts bounds (.error .overflow)
  | missing : ¬ Overflows bounds → (∃ bound ∈ bounds, bound.integer? = none) → Counts bounds (.ok none)
  | lengths {lengths : List Int64} : ¬ Overflows bounds → List.Forall₂ IsLength bounds lengths →
      Counts bounds (.ok (some lengths))

theorem Counts.cons {rest : List Node} {counted : Except Overflow (Option (List Int64))} {upper : Int64}
    (unsigned : bound.shape.isUnsigned) (isInteger : bound.integer? = some upper)
    (smaller : upper ≠ .maxValue) (counts : Counts rest counted) :
    Counts (bound :: rest) (counted.map (·.map ((upper + 1) :: ·))) := by
  have same : Overflows (bound :: rest) ↔ Overflows rest := by
    simp [overflows_cons, isInteger, smaller]
  cases counts with
  | overflow overflows => exact .overflow (same.2 overflows)
  | missing fits none =>
    obtain ⟨other, listed, none⟩ := none
    exact .missing (mt same.1 fits) ⟨other, List.mem_cons_of_mem _ listed, none⟩
  | lengths fits each =>
    have nonneg := unsigned_of_integer? unsigned isInteger
    exact .lengths (mt same.1 fits) (.cons
      ⟨upper, isInteger, Int64.le_iff_toInt_le.1 nonneg, toInt_add_one nonneg smaller⟩ each)

theorem counts_fixedLengths? {bounds : List Node} (unsigned : ∀ bound ∈ bounds, bound.shape.isUnsigned) :
    Counts bounds (fixedLengths? bounds) := by
  induction bounds with
  | nil => exact .lengths not_overflows_nil .nil
  | cons bound rest ih =>
    rw [List.forall_mem_cons] at unsigned
    rw [fixedLengths?, fixedLength?_eq unsigned.1]
    cases isInteger : bound.integer? with
    | none => exact .missing (by simp [overflows_cons, isInteger]) ⟨bound, List.mem_cons_self, isInteger⟩
    | some upper =>
      by_cases greatest : upper = .maxValue
      · simp only [greatest, if_true]
        exact .overflow (overflows_cons.2 (.inl (greatest ▸ isInteger)))
      · simp only [greatest, if_false]
        exact (ih unsigned.2).cons unsigned.1 isInteger greatest

theorem bounds_subset {decl : VarDecl Node} {array : ArrayBounds Node} (isVar : node.varDecl? = some decl)
    (isArray : decl.array = some array) : array.bounds ⊆ node.children := by
  have parts : array.bounds ⊆ Shape.varParts decl := by
    rw [Shape.varParts, isArray]
    exact List.subset_append_left _ _
  obtain ⟨info, shape⟩ := node
  cases shape with
  | field other | localVar other =>
    obtain rfl := Option.some.inj isVar
    exact parts
  | _ => exact nomatch isVar

end Node

section Parsed

variable {text name : String} {module : Module} {node : Node} {decl : VarDecl Node} {array : ArrayBounds Node}

theorem isUnsigned_bound (parsed : parseModule text name = .ok module) (inside : node ∈ module.root.descendants)
    (isVar : node.varDecl? = some decl) (isArray : decl.array = some array) :
    ∀ bound ∈ array.bounds, bound.shape.isUnsigned := by
  intro bound listed
  have lies := Node.mem_descendants_trans
    (Node.child_mem_descendants (Node.bounds_subset isVar isArray listed)) inside
  refine ((parseModule_numbered parsed).regular bound ?_).unsigned
  rwa [List.flatMap_singleton]

/-- The lengths of an array of a text. They overflow exactly if the greatest integer is reached; else they are
there if the array has bounds and all of them are written as integers, and each is one more than its bound. -/
theorem parseModule_lengths (parsed : parseModule text name = .ok module)
    (inside : node ∈ module.root.descendants) (isVar : node.varDecl? = some decl)
    (isArray : decl.array = some array) :
    (array.fixedLengths? = .error .overflow ↔ Node.Overflows array.bounds) ∧
    ∀ lengths?, array.fixedLengths? = .ok lengths? →
      (lengths?.isSome ↔ array.bounds ≠ [] ∧ ∀ bound ∈ array.bounds, bound.integer?.isSome) ∧
      ∀ lengths, lengths? = some lengths → List.Forall₂ Node.IsLength array.bounds lengths := by
  have counts := Node.counts_fixedLengths? (isUnsigned_bound parsed inside isVar isArray)
  unfold ArrayBounds.fixedLengths?
  by_cases empty : array.bounds = []
  · simp [empty, Node.not_overflows_nil]
  rw [if_neg (by simpa using empty)]
  generalize Node.fixedLengths? array.bounds = counted at counts
  cases counts with
  | overflow overflows => exact ⟨by simpa using overflows, by simp⟩
  | missing fits none =>
    obtain ⟨bound, listed, none⟩ := none
    refine ⟨by simpa using fits, fun lengths? isNone => ?_⟩
    obtain rfl := Except.ok.inj isNone
    refine ⟨⟨by simp, fun ⟨_, integers⟩ => ?_⟩, by simp⟩
    have isSome := integers bound listed
    rw [none] at isSome
    exact isSome
  | lengths fits each =>
    refine ⟨by simpa using fits, fun lengths? isSome => ?_⟩
    obtain rfl := Except.ok.inj isSome
    refine ⟨⟨fun _ => ⟨empty, fun bound listed => ?_⟩, fun _ => rfl⟩, fun _ same => Option.some.inj same ▸ each⟩
    obtain ⟨upper, isUpper⟩ := Node.integer_of_forall₂ each listed
    exact isUpper ▸ rfl

end Parsed

def Node.extent? (node : Node) : Option (List (Option Int64) × Except Overflow (Option (List Int64))) :=
  (node.varDecl?.bind (·.array)).map fun array => (array.bounds.map Node.integer?, array.fixedLengths?)

theorem parseModule_lengths_ten : ∃ module, parseModule "Public a(10)" "Test" = .ok module ∧
    ∃ node ∈ module.root.descendants, ∃ bounds length, node.extent? = some (bounds, .ok (some [length])) ∧
      bounds = [some 10] ∧ length.toInt = 11 := by
  have reads : (parseModule "Public a(10)" "Test").toOption.map (·.root.children.map fun node =>
      node.extent?.map fun extent => (extent.1, extent.2.isOk)) =
      some [some ([some 10], true)] := by
    decide +kernel
  cases parsed : parseModule "Public a(10)" "Test" with
  | error faults =>
    rw [parsed] at reads
    exact nomatch reads
  | ok module =>
    rw [parsed] at reads
    obtain ⟨node, isOnly, isExtent⟩ := List.map_eq_singleton_iff.1 (Option.some.inj reads)
    obtain ⟨extent, isExtent, extentIs⟩ := Option.map_eq_some_iff.1 isExtent
    obtain ⟨isBounds, counted⟩ := Prod.mk.inj extentIs
    obtain ⟨array, isArray, rfl⟩ := Option.map_eq_some_iff.1 isExtent
    obtain ⟨decl, isVar, isArray⟩ := Option.bind_eq_some_iff.1 isArray
    obtain ⟨bound, isBound, ten⟩ := List.map_eq_singleton_iff.1 isBounds
    have inside : node ∈ module.root.descendants := Node.child_mem_descendants (isOnly ▸ List.mem_cons_self)
    obtain ⟨lengths?, isOk⟩ : ∃ lengths?, array.fixedLengths? = .ok lengths? := by
      cases isOk : array.fixedLengths? with
      | ok lengths? => exact ⟨lengths?, rfl⟩
      | error _ =>
        rw [isOk] at counted
        exact (Bool.false_ne_true counted).elim
    obtain ⟨hasLengths, each⟩ := (parseModule_lengths parsed inside isVar isArray).2 lengths? isOk
    rw [isBound] at hasLengths each
    obtain ⟨lengths, rfl⟩ := Option.isSome_iff_exists.1
      (hasLengths.2 ⟨List.cons_ne_nil _ _, List.forall_mem_singleton.2 (ten ▸ rfl)⟩)
    obtain ⟨length, _, ⟨upper, isUpper, -, isLength⟩, none, rfl⟩ :=
      List.forall₂_cons_left_iff.1 (each lengths rfl)
    obtain rfl := List.forall₂_nil_left_iff.1 none
    obtain rfl := Option.some.inj (ten.symm.trans isUpper)
    exact ⟨module, rfl, node, inside, _, length, by rw [isExtent, isOk], isBounds, isLength⟩

/-- The greatest integer has none after it. -/
theorem parseModule_lengths_overflow : (parseModule "Public a(9223372036854775807)" "Test").toOption.map
    (·.root.children.map fun node => node.extent?.map fun extent => (extent.1, extent.2.isOk)) =
      some [some ([some .maxValue], false)] := by
  decide +kernel

end ScriptMigration
