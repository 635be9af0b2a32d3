import ScriptMigration.Descriptor.Basic

/-! Following descriptors that stand for other declarations, and the least descriptor above two.

`Descriptor.join` is the join of two descriptors that are known; `Descriptor.merge` follows both
sides first, and a side that leads nowhere gives way to the other. -/
namespace ScriptMigration

/-- What is known of declarations. Only finitely many have a descriptor. -/
structure KnownDecls where
  find : DeclRef → Option Descriptor
  finite : ∃ declared : List DeclRef, ∀ decl, (find decl).isSome → decl ∈ declared

namespace KnownDecls

def empty : KnownDecls := ⟨fun _ => none, [], by simp⟩

private theorem mem_of_isSome_find? {entries : List (DeclRef × Descriptor)} {decl : DeclRef}
    (known : ((entries.find? (·.1 == decl)).map (·.2)).isSome) : decl ∈ entries.map (·.1) := by
  cases found : entries.find? (·.1 == decl) with
  | none => simp [found] at known
  | some entry =>
    have equal := List.find?_some found
    simp only [beq_iff_eq] at equal
    exact List.mem_map.2 ⟨entry, List.mem_of_find?_eq_some found, equal⟩

/-- The lookup in a list of declarations, in which the first entry counts. -/
def ofList (entries : List (DeclRef × Descriptor)) : KnownDecls where
  find decl := (entries.find? (·.1 == decl)).map (·.2)
  finite := ⟨entries.map (·.1), fun _ known => mem_of_isSome_find? known⟩

/-- The entries in which a declaration has the given descriptor. It takes the place of the first
one, or the end where there was none. -/
def set (decl : DeclRef) (descriptor : Descriptor) :
    List (DeclRef × Descriptor) → List (DeclRef × Descriptor)
  | [] => [(decl, descriptor)]
  | entry :: rest =>
    if entry.1 == decl then (decl, descriptor) :: rest else entry :: set decl descriptor rest

end KnownDecls

namespace Descriptor

private theorem unseen_shrinks {declared seen : List DeclRef} {decl : DeclRef}
    (inside : decl ∈ declared) (fresh : decl ∉ seen) :
    (declared.filter (· ∉ decl :: seen)).length < (declared.filter (· ∉ seen)).length := by
  induction declared with
  | nil => simp at inside
  | cons head tail ih =>
    have monotone : (tail.filter (· ∉ decl :: seen)).length ≤ (tail.filter (· ∉ seen)).length := by
      rw [← List.countP_eq_length_filter, ← List.countP_eq_length_filter]
      refine List.countP_mono_left fun entry _ kept => ?_
      simp only [List.mem_cons, decide_eq_true_eq, not_or] at kept ⊢
      exact kept.2
    by_cases same : head = decl
    · subst same
      have kept : (decide (head ∉ seen)) = true := by simp [fresh]
      rw [List.filter_cons, List.filter_cons, kept]
      simp at monotone ⊢
      omega
    · have later : decl ∈ tail := by
        rcases List.mem_cons.1 inside with here | later
        · exact absurd here.symm same
        · exact later
      have smaller := ih later
      by_cases seenHead : head ∈ seen
      · simp only [List.filter_cons, List.mem_cons, same, seenHead, not_true_eq_false,
          decide_false, or_true]
        simpa using smaller
      · simp only [List.filter_cons, List.mem_cons, same, seenHead, not_false_eq_true,
          decide_true, or_false, if_true, List.length_cons]
        simpa using smaller

def followFrom (lookup : KnownDecls) (seen : List DeclRef) (descriptor : Descriptor) :
    Option Descriptor :=
  match descriptor with
  | .deferred decl =>
    if fresh : decl ∈ seen then none
    else
      match known : lookup.find decl with
      | none => none
      | some next =>
        have shrinks := unseen_shrinks (lookup.finite.choose_spec decl (by simp [known])) fresh
        followFrom lookup (decl :: seen) next
  | other => some other
termination_by (lookup.finite.choose.filter (· ∉ seen)).length
decreasing_by exact shrinks

/-- The descriptor that a chain of deferred ones leads to, or nothing where the chain ends at a
declaration that has none or comes back to one it passed. -/
def follow (lookup : KnownDecls) (descriptor : Descriptor) : Option Descriptor :=
  followFrom lookup [] descriptor

/-- The join of two types. Arrays of different dimensions, and types that are not both numeric,
meet in `object`. -/
def joinTypes (left right : DataType) : DataType :=
  if left.rank != right.rank then .ofPrimitive .object
  else
    let base :=
      if left.base == right.base then left.base
      else
        match left.base.primitive?, right.base.primitive? with
        | some x, some y =>
          if x.isNumeric && y.isNumeric then .primitive (x.widen y) else .primitive .object
        | _, _ => .primitive .object
    { base, rank := left.rank
      nullable := (left.nullable || right.nullable) && left.rank == 0 && base.isValueType }

def orNull (type : DataType) : DataType :=
  if type.isValueType then { type with nullable := true } else type

def join (left right : Descriptor) : Descriptor :=
  if left == right then left
  else
    match left, right with
    | .missing, other => other
    | other, .missing => other
    | .null, .type desc => .type (orNull desc)
    | .type desc, .null => .type (orNull desc)
    | .type left, .type right => .type (joinTypes left right)
    | _, _ => object

/-- The descriptor of a declaration that two descriptors flow into. -/
def merge (lookup : KnownDecls) (left right : Descriptor) : Descriptor :=
  if left == right then left
  else
    match left.follow lookup, right.follow lookup with
    | none, none => left
    | none, some right => right
    | some left, none => left
    | some left, some right => left.join right

end Descriptor

end ScriptMigration
