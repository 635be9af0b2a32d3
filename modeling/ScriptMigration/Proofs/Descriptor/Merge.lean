import ScriptMigration.Proofs.Descriptor.Follow
import ScriptMigration.Proofs.Descriptor.Join

/-! What merging gives after following, and that the order of merging does not matter. -/
namespace ScriptMigration

def KnownDecls.Sound (valueTypes : Fingerprint → Bool) (lookup : KnownDecls) : Prop :=
  ∀ decl descriptor, lookup.find decl = some descriptor → descriptor.Sound valueTypes

namespace Descriptor

variable {valueTypes : Fingerprint → Bool} {lookup : KnownDecls}

theorem isDeferred_join {left right : Descriptor} (first : left.isDeferred = false)
    (second : right.isDeferred = false) : (left.join right).isDeferred = false := by
  unfold join
  split
  · exact first
  · split <;> first | rfl | assumption

theorem follow_of_beq {left right : Descriptor} (same : left == right) :
    Option.merge join (left.follow lookup) (right.follow lookup) = left.follow lookup := by
  cases left with
  | deferred decl =>
    cases right with
    | deferred decl' =>
      simp only [deferred_beq, beq_iff_eq] at same
      subst same
      cases (deferred decl).follow lookup <;> simp [Option.merge, join_self]
    | type | null | form | missing => exact absurd same Bool.false_ne_true
  | type | null | form | missing =>
    have known : right.isDeferred = false := by
      cases right <;> first | rfl | exact absurd same Bool.false_ne_true
    rw [follow_of_known rfl, follow_of_known known]
    simp only [Option.merge, join, if_pos same]

theorem follow_merge (left right : Descriptor) : (left.merge lookup right).follow lookup =
    Option.merge join (left.follow lookup) (right.follow lookup) := by
  unfold merge
  split
  · rename_i same
    exact (follow_of_beq same).symm
  · split
    · rename_i nowhere nowhere'
      rw [nowhere, nowhere']
      rfl
    · rename_i found nowhere followed
      rw [nowhere, followed, follow_of_known (isDeferred_of_follow followed)]
      rfl
    · rename_i found followed nowhere
      rw [nowhere, followed, follow_of_known (isDeferred_of_follow followed)]
      rfl
    · rename_i first second followed followed'
      rw [followed, followed', follow_of_known (isDeferred_join (isDeferred_of_follow followed)
        (isDeferred_of_follow followed'))]
      rfl

theorem Sound.follow {first last : Descriptor} (sound : first.Sound valueTypes)
    (known : lookup.Sound valueTypes) (followed : first.follow lookup = some last) :
    last.Sound valueTypes := by
  obtain ⟨_, leads⟩ := follow_eq_some_iff.1 followed
  clear followed
  induction leads with
  | here => exact sound
  | next found _ ih => exact ih (known _ _ found)

theorem merge_sound {left right : Descriptor} (known : lookup.Sound valueTypes)
    (leftSound : left.Sound valueTypes) (rightSound : right.Sound valueTypes) :
    (left.merge lookup right).Sound valueTypes := by
  unfold merge
  split
  · exact leftSound
  · split
    · exact leftSound
    · rename_i followed
      exact rightSound.follow known followed
    · rename_i followed _
      exact leftSound.follow known followed
    · rename_i followed followed'
      exact join_sound (leftSound.follow known followed) (rightSound.follow known followed')

theorem join_below_iff {left right bound : Descriptor} (leftSound : left.Sound valueTypes)
    (rightSound : right.Sound valueTypes) (boundSound : bound.Sound valueTypes) :
    (left.join right).Below bound ↔ left.Below bound ∧ right.Below bound := by
  have joined := join_sound leftSound rightSound
  constructor
  · intro below
    exact ⟨(below_join_left left right).trans below joined boundSound,
      (below_join_right left right).trans below joined boundSound⟩
  · rintro ⟨first, second⟩
    exact join_least first second

section Fold

variable (known : lookup.Sound valueTypes)
include known

private theorem follow_merge_below_iff {left right bound : Descriptor}
    (leftSound : left.Sound valueTypes) (rightSound : right.Sound valueTypes)
    (boundSound : bound.Sound valueTypes) :
    (∀ last ∈ (left.merge lookup right).follow lookup, last.Below bound) ↔
      (∀ last ∈ left.follow lookup, last.Below bound) ∧
        ∀ last ∈ right.follow lookup, last.Below bound := by
  rw [follow_merge]
  cases followed : left.follow lookup with
  | none => cases right.follow lookup <;> simp [Option.merge]
  | some first =>
    cases followed' : right.follow lookup with
    | none => simp [Option.merge]
    | some second =>
      have both := join_below_iff (leftSound.follow known followed)
        (rightSound.follow known followed') boundSound
      simpa [Option.merge] using both

theorem follow_foldl_merge_below_iff {bound : Descriptor} (boundSound : bound.Sound valueTypes)
    (items : List Descriptor) (start : Descriptor)
    (sound : ∀ item ∈ start :: items, item.Sound valueTypes) :
    (∀ last ∈ (items.foldl (merge lookup) start).follow lookup, last.Below bound) ↔
      ∀ item ∈ start :: items, ∀ last ∈ item.follow lookup, last.Below bound := by
  induction items generalizing start with
  | nil => simp
  | cons item rest ih =>
    have startSound := sound start (by simp)
    have itemSound := sound item (by simp)
    have merged : ∀ other ∈ start.merge lookup item :: rest, other.Sound valueTypes := by
      intro other inside
      rcases List.mem_cons.1 inside with rfl | later
      · exact merge_sound known startSound itemSound
      · exact sound other (by simp [later])
    rw [List.foldl_cons, ih _ merged, List.forall_mem_cons, List.forall_mem_cons,
      List.forall_mem_cons, follow_merge_below_iff known startSound itemSound boundSound, and_assoc]

omit known in
theorem follow_foldl_merge_isSome (items : List Descriptor) (start : Descriptor) :
    ((items.foldl (merge lookup) start).follow lookup).isSome ↔
      ∃ item ∈ start :: items, (item.follow lookup).isSome := by
  induction items generalizing start with
  | nil => simp
  | cons item rest ih =>
    rw [List.foldl_cons, ih]
    simp only [List.mem_cons, exists_eq_or_imp]
    rw [follow_merge]
    cases start.follow lookup <;> cases item.follow lookup <;> simp [Option.merge]

private theorem foldl_merge_sound (items : List Descriptor) (start : Descriptor)
    (sound : ∀ item ∈ start :: items, item.Sound valueTypes) :
    (items.foldl (merge lookup) start).Sound valueTypes := by
  induction items generalizing start with
  | nil => exact sound start (by simp)
  | cons item rest ih =>
    refine ih _ fun other inside => ?_
    rcases List.mem_cons.1 inside with rfl | later
    · exact merge_sound known (sound start (by simp)) (sound item (by simp))
    · exact sound other (by simp [later])

theorem follow_foldl_merge_perm {start start' : Descriptor} {items items' : List Descriptor}
    (permuted : (start :: items).Perm (start' :: items'))
    (sound : ∀ item ∈ start :: items, item.Sound valueTypes) :
    (items.foldl (merge lookup) start).follow lookup ==
      (items'.foldl (merge lookup) start').follow lookup := by
  have sound' : ∀ item ∈ start' :: items', item.Sound valueTypes := fun item inside =>
    sound item (permuted.mem_iff.2 inside)
  have wholeSound := foldl_merge_sound known items start sound
  have wholeSound' := foldl_merge_sound known items' start' sound'
  have somewhere : ((items.foldl (merge lookup) start).follow lookup).isSome ↔
      ((items'.foldl (merge lookup) start').follow lookup).isSome := by
    rw [follow_foldl_merge_isSome, follow_foldl_merge_isSome]
    simp only [permuted.mem_iff]
  have bounds : ∀ bound, bound.Sound valueTypes →
      ((∀ last ∈ (items.foldl (merge lookup) start).follow lookup, last.Below bound) ↔
        ∀ last ∈ (items'.foldl (merge lookup) start').follow lookup, last.Below bound) := by
    intro bound boundSound
    rw [follow_foldl_merge_below_iff known boundSound items start sound,
      follow_foldl_merge_below_iff known boundSound items' start' sound']
    simp only [permuted.mem_iff]
  cases followed : (items.foldl (merge lookup) start).follow lookup with
  | none =>
    cases followed' : (items'.foldl (merge lookup) start').follow lookup with
    | none => rfl
    | some last' => simp [followed, followed'] at somewhere
  | some last =>
    cases followed' : (items'.foldl (merge lookup) start').follow lookup with
    | none => simp [followed, followed'] at somewhere
    | some last' =>
      have lastSound := wholeSound.follow known followed
      have lastSound' := wholeSound'.follow known followed'
      simp only [followed, followed', Option.mem_def, Option.some.injEq, forall_eq'] at bounds
      exact ((bounds last' lastSound').2 (below_refl last')).antisymm
        ((bounds last lastSound).1 (below_refl last)) lastSound lastSound'

end Fold

/-- Merging is the join of what both sides lead to, and the join is a commutative idempotent monoid
with a greatest element, so that merging a list gives the same in every order. -/
theorem follow_merge_eq_join_and_laws (valueTypes : Fingerprint → Bool) (lookup : KnownDecls)
    (known : lookup.Sound valueTypes) :
    (∀ left right : Descriptor, (left.merge lookup right).follow lookup =
      Option.merge join (left.follow lookup) (right.follow lookup)) ∧
    (∀ left right : Descriptor, left.Sound valueTypes → right.Sound valueTypes →
      left.join right == right.join left) ∧
    (∀ first second third : Descriptor, first.Sound valueTypes → second.Sound valueTypes →
      third.Sound valueTypes →
      (first.join second).join third == first.join (second.join third)) ∧
    (∀ descriptor : Descriptor, descriptor.join descriptor = descriptor) ∧
    (∀ descriptor : Descriptor,
      missing.join descriptor = descriptor ∧ descriptor.join missing = descriptor) ∧
    (∀ descriptor : Descriptor, descriptor.Sound valueTypes →
      object.join descriptor = object ∧ descriptor.join object = object) ∧
    (∀ (start start' : Descriptor) (items items' : List Descriptor),
      (∀ item ∈ start :: items, item.Sound valueTypes) →
      (start :: items).Perm (start' :: items') →
      (items.foldl (merge lookup) start).follow lookup ==
        (items'.foldl (merge lookup) start').follow lookup) := by
  refine ⟨follow_merge, fun _ _ => join_comm, fun _ _ _ => join_assoc, join_self,
    fun descriptor => ⟨missing_join descriptor, join_missing descriptor⟩,
    fun _ sound => ⟨object_join sound, join_object sound⟩, ?_⟩
  intro start start' items items' sound permuted
  exact follow_foldl_merge_perm known permuted sound

/-- Null, an integer and a declaration that holds a double meet in one descriptor in both orders. -/
theorem follow_merge_null_int_deferred :
    let decl : DeclRef := ⟨⟨0⟩, ⟨1⟩⟩
    let lookup := KnownDecls.ofList [(decl, ofPrimitive .double)]
    ([ofPrimitive .int32, deferred decl].foldl (merge lookup) null).follow lookup ==
      ([ofPrimitive .int32, null].foldl (merge lookup) (deferred decl)).follow lookup := by
  intro decl lookup
  have sound (kind : Primitive) : (ofPrimitive kind).Sound fun _ => false :=
    ⟨trivial, by simp [DataType.ofPrimitive]⟩
  have known : lookup.Sound fun _ => false := by
    intro other descriptor found
    by_cases same : decl = other
    · simp only [lookup, KnownDecls.ofList, List.find?_cons, same, beq_self_eq_true,
        Option.map_some, Option.some.injEq] at found
      exact found ▸ sound .double
    · simp [lookup, KnownDecls.ofList, same] at found
  refine (follow_merge_eq_join_and_laws _ lookup known).2.2.2.2.2.2 _ _ _ _ ?_ ?_
  · simp only [List.forall_mem_cons, List.not_mem_nil, false_implies, implies_true, and_true]
    exact ⟨trivial, sound .int32, trivial⟩
  · exact (List.Perm.swap _ _ _).trans
      (((List.Perm.swap _ _ _).cons _).trans (List.Perm.swap _ _ _))

end Descriptor

end ScriptMigration
