import ScriptMigration.Descriptor.Merge

/-! The order behind `Descriptor.join`, and what merging gives after following.

`Below` says when a value of one descriptor may be held by a declaration of another. The join of two
descriptors is their least upper bound in this order, so its laws follow from the order being
transitive and antisymmetric up to `==`, which ignores the spelling of script types and everything
of an external type but its fingerprint. -/
namespace ScriptMigration

namespace Primitive

theorem mem_all (kind : Primitive) : kind ∈ all := by cases kind <;> decide

private theorem widen_upper : ∀ x ∈ all, ∀ y ∈ all, x.isNumeric → y.isNumeric → x ≠ y →
    (x.widen y).isNumeric ∧ (x = x.widen y ∨ x.widen (x.widen y) = x.widen y) ∧
      (y = x.widen y ∨ y.widen (x.widen y) = x.widen y) := by
  decide +kernel

private theorem widen_least : ∀ x ∈ all, ∀ y ∈ all, ∀ z ∈ all, x.isNumeric → y.isNumeric →
    z.isNumeric → x ≠ y → (x = z ∨ x.widen z = z) → (y = z ∨ y.widen z = z) →
    x.widen y = z ∨ (x.widen y).widen z = z := by
  decide +kernel

private theorem widen_trans : ∀ x ∈ all, ∀ y ∈ all, ∀ z ∈ all, x.isNumeric → y.isNumeric →
    z.isNumeric → (x = y ∨ x.widen y = y) → (y = z ∨ y.widen z = z) → x = z ∨ x.widen z = z := by
  decide +kernel

private theorem widen_antisymm : ∀ x ∈ all, ∀ y ∈ all, x.isNumeric → y.isNumeric →
    (x = y ∨ x.widen y = y) → (y = x ∨ y.widen x = x) → x = y := by
  decide +kernel

/-- A numeric type holds the values of another. A type holds its own values, which `widen` does not
say of single and decimal. -/
structure Widens (x y : Primitive) : Prop where
  left : x.isNumeric
  right : y.isNumeric
  wider : x = y ∨ x.widen y = y

namespace Widens

variable {x y z : Primitive}

theorem widen_left (left : x.isNumeric) (right : y.isNumeric) (differ : x ≠ y) :
    x.Widens (x.widen y) := by
  obtain ⟨numeric, first, _⟩ := widen_upper x (mem_all x) y (mem_all y) left right differ
  exact ⟨left, numeric, first⟩

theorem widen_right (left : x.isNumeric) (right : y.isNumeric) (differ : x ≠ y) :
    y.Widens (x.widen y) := by
  obtain ⟨numeric, _, second⟩ := widen_upper x (mem_all x) y (mem_all y) left right differ
  exact ⟨right, numeric, second⟩

theorem least (first : x.Widens z) (second : y.Widens z) (differ : x ≠ y) :
    (x.widen y).Widens z := by
  have numeric := (widen_left first.left second.left differ).right
  exact ⟨numeric, first.right, widen_least x (mem_all x) y (mem_all y) z (mem_all z)
    first.left second.left first.right differ first.wider second.wider⟩

theorem trans (first : x.Widens y) (second : y.Widens z) : x.Widens z :=
  ⟨first.left, second.right, widen_trans x (mem_all x) y (mem_all y) z (mem_all z)
    first.left first.right second.right first.wider second.wider⟩

theorem antisymm (first : x.Widens y) (second : y.Widens x) : x = y :=
  widen_antisymm x (mem_all x) y (mem_all y) first.left first.right first.wider second.wider

end Widens

theorem isValueType_of_isNumeric {kind : Primitive} (numeric : kind.isNumeric) :
    kind.isValueType := by
  cases kind <;> simp_all [isNumeric, isInteger, isFractional, isValueType]

end Primitive

namespace BaseType

def join (left right : BaseType) : BaseType :=
  if left == right then left
  else
    match left.primitive?, right.primitive? with
    | some x, some y =>
      if x.isNumeric && y.isNumeric then .primitive (x.widen y) else .primitive .object
    | _, _ => .primitive .object

@[simp] theorem primitive_beq (left right : Primitive) :
    (primitive left == primitive right) = (left == right) := rfl

@[simp] theorem external_beq (left right : ExternalType) :
    (external left == external right) = (left.print == right.print) := rfl

@[simp] theorem script_beq (left right : DeclRef) (name name' : String) :
    (script left name == script right name') = (left == right) := rfl

theorem beq_symm {left right : BaseType} (same : left == right) : right == left := by
  cases left <;> cases right <;> simp_all [BEq.beq, BaseType.same]

theorem beq_refl (base : BaseType) : base == base := by
  cases base <;> simp

theorem beq_trans {first second third : BaseType} (left : first == second)
    (right : second == third) : first == third := by
  cases first <;> cases second <;> cases third <;> simp_all [BEq.beq, BaseType.same]

inductive Below : BaseType → BaseType → Prop
  | same {left right} (equal : left == right) : Below left right
  | object (left) : Below left (.primitive .object)
  | wider {x y} (widens : x.Widens y) : Below (.primitive x) (.primitive y)

/-- Whether a base is a value type is a matter of its fingerprint where it is external. -/
def Sound (valueTypes : Fingerprint → Bool) : BaseType → Prop
  | external type => type.isValueType = valueTypes type.print
  | _ => True

section Order

variable {valueTypes : Fingerprint → Bool} {first second third : BaseType}

theorem Sound.isValueType_eq (left : first.Sound valueTypes) (right : second.Sound valueTypes)
    (same : first == second) : first.isValueType = second.isValueType := by
  cases first <;> cases second <;> simp_all [BEq.beq, BaseType.same, Sound, BaseType.isValueType]

theorem below_left (left right : BaseType) : left.Below (left.join right) := by
  unfold join
  split
  · exact .same (beq_refl left)
  · rename_i differ
    split
    · rename_i x y isLeft isRight
      split
      · rename_i numeric
        cases left <;> simp_all [primitive?]
        cases right <;> simp_all
        exact .wider (.widen_left numeric.1 numeric.2 differ)
      · exact .object _
    · exact .object _

theorem below_right (left right : BaseType) : right.Below (left.join right) := by
  unfold join
  split
  · rename_i same
    exact .same (beq_symm same)
  · rename_i differ
    split
    · rename_i x y isLeft isRight
      split
      · rename_i numeric
        cases left <;> simp_all [primitive?]
        cases right <;> simp_all
        exact .wider (.widen_right numeric.1 numeric.2 differ)
      · exact .object _
    · exact .object _

theorem Below.trans (left : first.Below second) (right : second.Below third) :
    first.Below third := by
  cases left with
  | same equal =>
    cases right with
    | same equal' => exact .same (beq_trans equal equal')
    | object => exact .object _
    | wider widens =>
      cases first <;> simp_all [BEq.beq, BaseType.same]
      exact .wider widens
  | object =>
    cases right with
    | same equal =>
      cases third <;> simp_all [BEq.beq, BaseType.same]
      subst equal
      exact .object _
    | object => exact .object _
    | wider widens => exact absurd widens.left (by decide)
  | wider widens =>
    cases right with
    | same equal =>
      cases third <;> simp_all [BEq.beq, BaseType.same]
      subst equal
      exact .wider widens
    | object => exact .object _
    | wider widens' => exact .wider (widens.trans widens')

theorem Below.antisymm (left : first.Below second) (right : second.Below first) :
    first == second := by
  cases left with
  | same equal => exact equal
  | object =>
    cases right with
    | same equal => exact beq_symm equal
    | object => simp
    | wider widens => exact absurd widens.left (by decide)
  | wider widens =>
    cases right with
    | same equal => exact beq_symm equal
    | object => exact absurd widens.left (by decide)
    | wider widens' => simp [widens.antisymm widens']

theorem join_least (left : first.Below third) (right : second.Below third) :
    (first.join second).Below third := by
  unfold join
  split
  · exact left
  · rename_i differ
    cases left with
    | object => exact .object _
    | same equal =>
      cases right with
      | object => exact .object _
      | same equal' => exact absurd (beq_trans equal (beq_symm equal')) differ
      | wider widens =>
        cases first <;> simp_all [BEq.beq, BaseType.same, primitive?]
        simp [widens.left, widens.right]
        exact .wider (.least ⟨widens.right, widens.right, .inl rfl⟩ widens differ)
    | wider widens =>
      cases right with
      | object => exact .object _
      | same equal =>
        cases second <;> simp_all [BEq.beq, BaseType.same, primitive?]
        simp [widens.left, widens.right]
        exact .wider (.least widens ⟨widens.right, widens.right, .inl rfl⟩ differ)
      | wider widens' =>
        simp only [primitive_beq, beq_iff_eq] at differ
        simp only [primitive?, widens.left, widens'.left, Bool.and_self, if_true]
        exact .wider (.least widens widens' differ)

theorem Below.isValueType_left (below : first.Below second) (left : first.Sound valueTypes)
    (right : second.Sound valueTypes) (value : second.isValueType) : first.isValueType := by
  cases below with
  | same equal => rw [left.isValueType_eq right equal]; exact value
  | object => exact absurd value (by decide)
  | wider widens => exact Primitive.isValueType_of_isNumeric widens.left

theorem join_sound (left : first.Sound valueTypes) : (first.join second).Sound valueTypes := by
  unfold join
  split
  · exact left
  · split
    · split <;> trivial
    · trivial

end Order

end BaseType

namespace DataType

/-- Only scalar value types are nullable, and external types are known by their fingerprints. -/
structure Sound (valueTypes : Fingerprint → Bool) (type : DataType) : Prop where
  base : type.base.Sound valueTypes
  nullable : type.nullable → type.isValueType

inductive Below : DataType → DataType → Prop
  | object (left) : Below left (.ofPrimitive .object)
  | within {left right} (rank : left.rank = right.rank) (base : left.base.Below right.base)
      (null : left.nullable → right.isValueType → right.nullable) : Below left right

section Order

variable {valueTypes : Fingerprint → Bool} {first second third : DataType}

theorem beq_iff (left right : DataType) :
    left == right ↔ left.base == right.base ∧ left.rank = right.rank ∧
      left.nullable = right.nullable := by
  change (left.base == right.base && left.rank == right.rank && left.nullable == right.nullable)
    = true ↔ _
  simp [and_assoc]

theorem object_sound : (ofPrimitive .object).Sound valueTypes := ⟨trivial, by simp [ofPrimitive]⟩

theorem eq_object_of_below (below : (ofPrimitive .object).Below second)
    (sound : second.Sound valueTypes) : second = .ofPrimitive .object := by
  cases below with
  | object => rfl
  | within rank base null =>
    rcases second with ⟨base', rank', nullable⟩
    have notNumeric : ¬ (Primitive.object).isNumeric = true := by decide
    cases base with
    | same equal =>
      cases base' <;> simp_all [BEq.beq, BaseType.same, ofPrimitive]
      subst equal
      cases nullable
      · rfl
      · exact absurd (sound.nullable rfl) (by simp [isValueType, BaseType.isValueType,
          Primitive.isValueType])
    | object =>
      cases nullable
      · simp_all [ofPrimitive]
      · exact absurd (sound.nullable rfl) (by simp [isValueType, BaseType.isValueType,
          Primitive.isValueType])
    | wider widens => exact absurd widens.left notNumeric

theorem below_isValueType (below : first.Below second) (left : first.Sound valueTypes)
    (right : second.Sound valueTypes) (value : second.isValueType) : first.isValueType := by
  cases below with
  | object => exact absurd value (by decide)
  | within rank base null =>
    simp only [isValueType, Bool.and_eq_true] at value ⊢
    exact ⟨rank ▸ value.1, base.isValueType_left left.base right.base value.2⟩

theorem Below.trans (left : first.Below second) (right : second.Below third)
    (secondSound : second.Sound valueTypes) (thirdSound : third.Sound valueTypes) :
    first.Below third := by
  cases left with
  | object =>
    rw [eq_object_of_below right thirdSound]
    exact .object _
  | within rank base null =>
    cases right with
    | object => exact .object _
    | within rank' base' null' =>
      refine .within (rank.trans rank') (base.trans base') fun nullable value => ?_
      have middle := below_isValueType (.within rank' base' null') secondSound thirdSound value
      exact null' (null nullable middle) value

theorem Below.antisymm (left : first.Below second) (right : second.Below first)
    (firstSound : first.Sound valueTypes) (secondSound : second.Sound valueTypes) :
    first == second := by
  cases left with
  | object =>
    rw [eq_object_of_below right firstSound, beq_iff]
    exact ⟨BaseType.beq_refl _, rfl, rfl⟩
  | within rank base null =>
    cases right with
    | object =>
      rw [eq_object_of_below (.within rank base null) secondSound, beq_iff]
      exact ⟨BaseType.beq_refl _, rfl, rfl⟩
    | within rank' base' null' =>
      have same := base.antisymm base'
      have values := firstSound.base.isValueType_eq secondSound.base same
      have scalars : first.isValueType = second.isValueType := by
        simp only [isValueType, rank, values]
      refine (beq_iff _ _).2 ⟨same, rank, ?_⟩
      cases nullable : first.nullable with
      | true => exact (null nullable (scalars ▸ firstSound.nullable nullable)).symm
      | false =>
        cases nullable' : second.nullable with
        | false => rfl
        | true =>
          have back := null' nullable' (scalars ▸ secondSound.nullable nullable')
          rw [nullable] at back
          exact absurd back (by decide)

theorem joinTypes_eq (left right : DataType) : Descriptor.joinTypes left right =
    if left.rank = right.rank then
      { base := left.base.join right.base, rank := left.rank
        nullable := (left.nullable || right.nullable) && left.rank == 0
          && (left.base.join right.base).isValueType }
    else .ofPrimitive .object := by
  by_cases equal : left.rank = right.rank
  · rw [if_pos equal]
    simp only [Descriptor.joinTypes, equal, bne_self_eq_false, Bool.false_eq_true, if_false]
    rfl
  · rw [if_neg equal]
    simp only [Descriptor.joinTypes, bne_iff_ne, ne_eq, equal, not_false_eq_true, if_true]

theorem join_sound (left : first.Sound valueTypes) :
    (Descriptor.joinTypes first second).Sound valueTypes := by
  rw [joinTypes_eq]
  split
  · refine ⟨BaseType.join_sound left.base, fun nullable => ?_⟩
    simp only [Bool.and_eq_true] at nullable
    simp [isValueType, nullable]
  · exact object_sound

theorem below_joinTypes_left (left right : DataType) :
    left.Below (Descriptor.joinTypes left right) := by
  rw [joinTypes_eq]
  split
  · refine .within rfl (BaseType.below_left _ _) fun nullable value => ?_
    simp only [isValueType, Bool.and_eq_true] at value
    simp [nullable, value]
  · exact .object _

theorem below_joinTypes_right (left right : DataType) :
    right.Below (Descriptor.joinTypes left right) := by
  rw [joinTypes_eq]
  split
  · rename_i rank
    refine .within rank.symm (BaseType.below_right _ _) fun nullable value => ?_
    simp only [isValueType, Bool.and_eq_true] at value
    simp [nullable, value]
  · exact .object _

theorem joinTypes_least (left : first.Below third) (right : second.Below third) :
    (Descriptor.joinTypes first second).Below third := by
  cases left with
  | object => exact .object _
  | within rank base null =>
    cases right with
    | object => exact .object _
    | within rank' base' null' =>
      rw [joinTypes_eq, if_pos (rank.trans rank'.symm)]
      refine .within rank (BaseType.join_least base base') fun nullable value => ?_
      simp only [Bool.and_eq_true, Bool.or_eq_true] at nullable
      rcases nullable.1.1 with fromLeft | fromRight
      · exact null fromLeft value
      · exact null' fromRight value

end Order

end DataType

namespace Descriptor

@[simp] theorem type_beq (left right : DataType) : (type left == type right) = (left == right) := rfl

@[simp] theorem deferred_beq (left right : DeclRef) :
    (deferred left == deferred right) = (left == right) := rfl

theorem beq_refl (descriptor : Descriptor) : descriptor == descriptor := by
  cases descriptor with
  | type desc => exact (DataType.beq_iff _ _).2 ⟨BaseType.beq_refl _, rfl, rfl⟩
  | deferred decl => simp
  | null | form | missing => rfl

theorem beq_symm {left right : Descriptor} (same : left == right) : right == left := by
  cases left <;> cases right <;> try exact absurd same Bool.false_ne_true
  case type.type left right =>
    obtain ⟨base, rank, nullable⟩ := (DataType.beq_iff left right).1 same
    exact (DataType.beq_iff right left).2 ⟨BaseType.beq_symm base, rank.symm, nullable.symm⟩
  case deferred.deferred left right =>
    simp only [deferred_beq, beq_iff_eq] at same ⊢
    exact same.symm
  all_goals rfl

theorem noted_refl (noted : Option Descriptor) : noted == noted := by
  cases noted with
  | none => rfl
  | some descriptor => exact descriptor.beq_refl

theorem noted_symm {left right : Option Descriptor} (same : left == right) :
    right == left := by
  cases left with
  | none =>
    cases right with
    | none => rfl
    | some => exact nomatch same
  | some =>
    cases right with
    | none => exact nomatch same
    | some => exact beq_symm same

theorem beq_trans {first second third : Descriptor} (left : first == second)
    (right : second == third) : first == third := by
  cases first <;> cases second <;> (try exact absurd left Bool.false_ne_true) <;>
    cases third <;> (try exact absurd right Bool.false_ne_true)
  case type.type.type first second third =>
    obtain ⟨base, rank, nullable⟩ := (DataType.beq_iff first second).1 left
    obtain ⟨base', rank', nullable'⟩ := (DataType.beq_iff second third).1 right
    exact (DataType.beq_iff first third).2
      ⟨BaseType.beq_trans base base', rank.trans rank', nullable.trans nullable'⟩
  case deferred.deferred.deferred =>
    simp only [deferred_beq, beq_iff_eq] at left right ⊢
    exact left.trans right
  all_goals rfl

def Sound (valueTypes : Fingerprint → Bool) : Descriptor → Prop
  | type desc => desc.Sound valueTypes
  | _ => True

inductive Below : Descriptor → Descriptor → Prop
  | missing (right) : Below .missing right
  | object (left) : Below left .object
  | form : Below .form .form
  | deferred (decl) : Below (.deferred decl) (.deferred decl)
  | bothNull : Below .null .null
  | null {desc} (holds : desc.isValueType → desc.nullable) : Below .null (.type desc)
  | types {left right} (below : left.Below right) : Below (.type left) (.type right)

section Order

variable {valueTypes : Fingerprint → Bool} {first second third : Descriptor}

theorem below_of_beq (same : first == second) : first.Below second := by
  cases first <;> cases second <;> try exact absurd same Bool.false_ne_true
  case type.type left right =>
    obtain ⟨base, rank, nullable⟩ := (DataType.beq_iff left right).1 same
    exact .types (.within rank (.same base) fun holds _ => nullable ▸ holds)
  case deferred.deferred left right =>
    simp only [deferred_beq, beq_iff_eq] at same
    exact same ▸ .deferred left
  case null.null => exact .bothNull
  case form.form => exact .form
  case missing.missing => exact .missing _

theorem below_refl (descriptor : Descriptor) : descriptor.Below descriptor :=
  below_of_beq (beq_refl descriptor)

theorem eq_object_of_below (below : object.Below second) (sound : second.Sound valueTypes) :
    second = .object := by
  cases below with
  | object => rfl
  | types below => rw [DataType.eq_object_of_below below sound]; rfl

theorem Below.trans (left : first.Below second) (right : second.Below third)
    (secondSound : second.Sound valueTypes) (thirdSound : third.Sound valueTypes) :
    first.Below third := by
  cases left with
  | missing => exact .missing _
  | object => rw [eq_object_of_below right thirdSound]; exact .object _
  | form | deferred | bothNull => exact right
  | types below =>
    cases right with
    | object => exact .object _
    | types below' => exact .types (below.trans below' secondSound thirdSound)
  | null holds =>
    cases right with
    | object => exact .object _
    | types below' =>
      refine .null fun value => ?_
      have middle := holds (DataType.below_isValueType below' secondSound thirdSound value)
      cases below' with
      | object => exact absurd value (by decide)
      | within _ _ null => exact null middle value

theorem Below.antisymm (left : first.Below second) (right : second.Below first)
    (firstSound : first.Sound valueTypes) (secondSound : second.Sound valueTypes) :
    first == second := by
  cases left with
  | missing => cases right with
    | missing => rfl
  | object => rw [eq_object_of_below right firstSound]; exact beq_refl _
  | form | bothNull => rfl
  | deferred => simp
  | null holds => nomatch right
  | types below =>
    cases right with
    | object =>
      rw [DataType.eq_object_of_below below secondSound]
      exact beq_refl _
    | types below' => exact below.antisymm below' firstSound secondSound

theorem orNull_sound {desc : DataType} (sound : desc.Sound valueTypes) :
    (orNull desc).Sound valueTypes := by
  unfold orNull
  split
  · rename_i value
    exact ⟨sound.base, fun _ => value⟩
  · exact sound

theorem below_orNull (desc : DataType) : desc.Below (orNull desc) := by
  unfold orNull
  split
  · exact .within rfl (.same (BaseType.beq_refl _)) fun _ _ => rfl
  · exact .within rfl (.same (BaseType.beq_refl _)) fun holds _ => holds

theorem null_below_orNull (desc : DataType) : Below .null (.type (orNull desc)) := by
  unfold orNull
  split
  · exact .null fun _ => rfl
  · rename_i reference
    exact .null fun value => absurd value reference

theorem orNull_least {desc desc' : DataType} (below : desc.Below desc')
    (holds : desc'.isValueType → desc'.nullable) : (orNull desc).Below desc' := by
  unfold orNull
  split
  · cases below with
    | object => exact .object _
    | within rank base null => exact .within rank base fun _ => holds
  · exact below

theorem below_join_left (left right : Descriptor) : left.Below (left.join right) := by
  unfold join
  split
  · exact below_refl left
  · split
    · exact .missing _
    · exact below_refl left
    · exact null_below_orNull _
    · exact .types (below_orNull _)
    · exact .types (DataType.below_joinTypes_left _ _)
    · exact .object _

theorem below_join_right (left right : Descriptor) : right.Below (left.join right) := by
  unfold join
  split
  · rename_i same
    exact below_of_beq (beq_symm same)
  · split
    · exact below_refl _
    · exact .missing _
    · exact .types (below_orNull _)
    · exact null_below_orNull _
    · exact .types (DataType.below_joinTypes_right _ _)
    · exact .object _

theorem join_least (left : first.Below third) (right : second.Below third) :
    (first.join second).Below third := by
  unfold join
  split
  · exact left
  · rename_i differ
    split
    · exact right
    · exact left
    · cases right with
      | object => exact .object _
      | types below =>
        cases left with
        | object => exact .object _
        | null holds => exact .types (orNull_least below holds)
    · cases left with
      | object => exact .object _
      | types below =>
        cases right with
        | object => exact .object _
        | null holds => exact .types (orNull_least below holds)
    · cases left with
      | object => exact .object _
      | types below =>
        cases right with
        | object => exact .object _
        | types below' => exact .types (DataType.joinTypes_least below below')
    · -- Only `object` lies above two descriptors of different kinds.
      cases left <;> cases right <;> first
        | exact .object _
        | exact absurd (beq_refl _) differ
        | simp_all

theorem join_sound (left : first.Sound valueTypes) (right : second.Sound valueTypes) :
    (first.join second).Sound valueTypes := by
  unfold join
  split
  · exact left
  · split
    · exact right
    · exact left
    · exact orNull_sound right
    · exact orNull_sound left
    · exact DataType.join_sound left
    · exact DataType.object_sound

theorem join_self (descriptor : Descriptor) : descriptor.join descriptor = descriptor := by
  unfold join
  rw [if_pos (beq_refl descriptor)]

theorem missing_join (descriptor : Descriptor) : missing.join descriptor = descriptor := by
  cases descriptor <;> rfl

theorem join_missing (descriptor : Descriptor) : descriptor.join missing = descriptor := by
  cases descriptor <;> rfl

theorem object_join (sound : first.Sound valueTypes) : object.join first = object :=
  eq_object_of_below (below_join_left object first) (join_sound DataType.object_sound sound)

theorem join_object (sound : first.Sound valueTypes) : first.join object = object :=
  eq_object_of_below (below_join_right first object) (join_sound sound DataType.object_sound)

theorem join_comm (left : first.Sound valueTypes) (right : second.Sound valueTypes) :
    first.join second == second.join first :=
  (join_least (below_join_right second first) (below_join_left second first)).antisymm
    (join_least (below_join_right first second) (below_join_left first second))
    (join_sound left right) (join_sound right left)

theorem join_assoc (a : first.Sound valueTypes) (b : second.Sound valueTypes)
    (c : third.Sound valueTypes) :
    (first.join second).join third == first.join (second.join third) := by
  have inner := join_sound a b
  have inner' := join_sound b c
  have outer := join_sound inner c
  have outer' := join_sound a inner'
  refine Below.antisymm (join_least (join_least ?_ ?_) ?_) (join_least ?_ (join_least ?_ ?_))
    outer outer'
  · exact below_join_left _ _
  · exact (below_join_left second third).trans (below_join_right _ _) inner' outer'
  · exact (below_join_right second third).trans (below_join_right _ _) inner' outer'
  · exact (below_join_left first second).trans (below_join_left _ _) inner outer
  · exact (below_join_right first second).trans (below_join_left _ _) inner outer
  · exact below_join_right _ _

end Order

end Descriptor

end ScriptMigration
