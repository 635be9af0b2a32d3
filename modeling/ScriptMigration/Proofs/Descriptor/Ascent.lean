import ScriptMigration.Proofs.Descriptor.Merge

/-! How descriptors rise. `Precedes` says that joining the second to the first gives the second, to
the letter and not only up to `==`. Every join rises in this order, and `room` bounds how often it
can. None of this needs sound descriptors. -/
namespace ScriptMigration

namespace BaseType

theorem join_self (base : BaseType) : base.join base = base := by
  simp [join, beq_refl]

theorem join_object (base : BaseType) : base.join (.primitive .object) = .primitive .object := by
  cases base with
  | primitive kind => cases kind <;> rfl
  | _ => rfl

theorem join_widens {x y : Primitive} (widens : x.Widens y) :
    (primitive x).join (.primitive y) = .primitive y := by
  unfold join
  by_cases same : x = y
  · simp [same]
  · rcases widens.wider with equal | wider
    · exact absurd equal same
    · simp [primitive?, same, widens.left, widens.right, wider]

theorem join_cases (left right : BaseType) : left.join right = left ∨
    left.join right = .primitive .object ∨
      ∃ x y, left = .primitive x ∧ left.join right = .primitive y ∧ x.Widens y := by
  unfold join
  split
  · exact .inl rfl
  · rename_i differ
    cases left with
    | primitive x =>
      cases right with
      | primitive y =>
        have apart : x ≠ y := by simpa using differ
        by_cases numeric : x.isNumeric && y.isNumeric
        · simp only [Bool.and_eq_true] at numeric
          have widens := Primitive.Widens.widen_left numeric.1 numeric.2 apart
          refine .inr (.inr ⟨x, x.widen y, rfl, ?_, widens⟩)
          simp [primitive?, numeric]
        · refine .inr (.inl ?_)
          simp [primitive?, numeric]
      | _ => exact .inr (.inl rfl)
    | _ => exact .inr (.inl rfl)

theorem join_eq_right_iff {left right : BaseType} : left.join right = right ↔
    left = right ∨ right = .primitive .object ∨
      ∃ x y, left = .primitive x ∧ right = .primitive y ∧ x.Widens y := by
  constructor
  · intro joined
    rcases join_cases left right with same | object | ⟨x, y, isLeft, isRight, widens⟩
    · exact .inl (same.symm.trans joined)
    · exact .inr (.inl (joined.symm.trans object))
    · exact .inr (.inr ⟨x, y, isLeft, joined.symm.trans isRight, widens⟩)
  · rintro (rfl | rfl | ⟨x, y, rfl, rfl, widens⟩)
    · exact join_self left
    · exact join_object left
    · exact join_widens widens

theorem join_join (left right : BaseType) : left.join (left.join right) = left.join right := by
  rcases join_cases left right with same | object | ⟨x, y, rfl, isRight, widens⟩
  · rw [same, join_self]
  · rw [object, join_object]
  · rw [isRight, join_widens widens]

theorem join_eq_right_trans {first second third : BaseType} (left : first.join second = second)
    (right : second.join third = third) : first.join third = third := by
  rw [join_eq_right_iff] at left right ⊢
  have stuck {y : Primitive} : ¬ Primitive.Widens .object y := fun widens =>
    absurd widens.left (by decide)
  rcases left with rfl | rfl | ⟨x, y, rfl, rfl, widens⟩
  · exact right
  · rcases right with rfl | object | ⟨x, y, isLeft, _, widens⟩
    · exact .inr (.inl rfl)
    · exact .inr (.inl object)
    · obtain rfl := BaseType.primitive.inj isLeft
      exact absurd widens stuck
  · rcases right with rfl | object | ⟨x', z, isLeft, rfl, wider⟩
    · exact .inr (.inr ⟨x, y, rfl, rfl, widens⟩)
    · exact .inr (.inl object)
    · obtain rfl := BaseType.primitive.inj isLeft
      exact .inr (.inr ⟨x, z, rfl, rfl, widens.trans wider⟩)

theorem isValueType_of_join {left right : BaseType} (joined : left.join right = right)
    (value : right.isValueType) : left.isValueType := by
  rcases join_eq_right_iff.1 joined with rfl | rfl | ⟨x, y, rfl, rfl, widens⟩
  · exact value
  · exact absurd value (by decide)
  · exact Primitive.isValueType_of_isNumeric widens.left

def room : BaseType → Nat
  | .primitive .object => 0
  | .primitive .single | .primitive .decimal => 2
  | .primitive .int64 => 3
  | .primitive .int32 => 4
  | .primitive .int16 => 5
  | .primitive .byte => 6
  | _ => 1

private theorem room_widen : ∀ x ∈ Primitive.all, ∀ y ∈ Primitive.all, x.isNumeric → y.isNumeric →
    x.widen y = y → x ≠ y → room (.primitive y) < room (.primitive x) := by
  decide +kernel

theorem room_join (left right : BaseType) : left.join right = left ∨
    (left.join right).room < left.room := by
  rcases join_cases left right with same | object | ⟨x, y, rfl, isRight, widens⟩
  · exact .inl same
  · rw [object]
    cases left with
    | primitive kind => cases kind <;> first | exact .inl rfl | exact .inr (by decide)
    | _ => exact .inr Nat.zero_lt_one
  · rw [isRight]
    rcases widens.wider with rfl | wider
    · exact .inl rfl
    · by_cases same : x = y
      · exact .inl (same ▸ rfl)
      · exact .inr (room_widen x (Primitive.mem_all x) y (Primitive.mem_all y) widens.left
          widens.right wider same)

theorem room_le (base : BaseType) : base.room ≤ 6 := by
  cases base with
  | primitive kind => cases kind <;> decide
  | _ => exact (by decide : 1 ≤ 6)

end BaseType

namespace DataType

open Descriptor (joinTypes orNull)

/-- A type rises to another of the same rank. -/
structure Within (left right : DataType) : Prop where
  rank : left.rank = right.rank
  base : left.base.join right.base = right.base
  nullable : right.nullable =
    ((left.nullable || right.nullable) && right.rank == 0 && right.base.isValueType)

theorem joinTypes_of_within {left right : DataType} (within : left.Within right) :
    joinTypes left right = right := by
  rw [joinTypes_eq, if_pos within.rank, within.base, within.rank, ← within.nullable]

theorem joinTypes_cases (left right : DataType) : joinTypes left right = .ofPrimitive .object ∨
    left.Within (joinTypes left right) := by
  rw [joinTypes_eq]
  split
  · rename_i equal
    refine .inr ⟨rfl, BaseType.join_join .., ?_⟩
    cases left.nullable <;> cases right.nullable <;> cases left.rank == 0 <;>
      cases (left.base.join right.base).isValueType <;> rfl
  · exact .inl rfl

theorem Within.trans {first second third : DataType} (left : first.Within second)
    (right : second.Within third) : first.Within third := by
  refine ⟨left.rank.trans right.rank, BaseType.join_eq_right_trans left.base right.base, ?_⟩
  have lower := left.nullable
  have upper := right.nullable
  have kept : third.base.isValueType → second.base.isValueType :=
    BaseType.isValueType_of_join right.base
  rw [right.rank] at lower
  revert lower upper kept
  generalize first.nullable = a
  generalize second.nullable = b
  generalize third.nullable = c
  generalize (third.rank == 0) = scalar
  generalize second.base.isValueType = value
  generalize third.base.isValueType = value'
  revert a b c scalar value value'
  decide

theorem eq_object_of_within {type : DataType} (within : (ofPrimitive .object).Within type) :
    type = .ofPrimitive .object := by
  rcases type with ⟨base, rank, nullable⟩
  obtain ⟨sameRank, joined, null⟩ := within
  have isObject : base = .primitive .object := by
    rcases BaseType.join_eq_right_iff.1 joined with same | object | ⟨x, y, isLeft, _, widens⟩
    · exact same.symm
    · exact object
    · obtain rfl := BaseType.primitive.inj isLeft
      exact absurd widens.left (by decide)
  subst isObject
  have plain : nullable = false := by simpa [BaseType.isValueType, Primitive.isValueType] using null
  have scalar : rank = 0 := sameRank.symm
  simp [ofPrimitive, plain, scalar]

theorem orNull_of_within {left right : DataType} (within : left.Within right)
    (nulled : orNull left = left) : orNull right = right := by
  unfold orNull at nulled ⊢
  split
  · rename_i value
    simp only [isValueType, Bool.and_eq_true] at value
    have leftValue : left.isValueType := by
      simp only [isValueType, Bool.and_eq_true]
      exact ⟨within.rank ▸ value.1, BaseType.isValueType_of_join within.base value.2⟩
    rw [if_pos leftValue] at nulled
    have leftNull : left.nullable = true := by rw [← nulled]
    have rightNull : right.nullable = true := by
      have null := within.nullable
      rw [leftNull, value.1, value.2] at null
      simpa using null
    rcases right with ⟨base, rank, nullable⟩
    simp_all
  · rfl

theorem orNull_orNull (type : DataType) : orNull (orNull type) = orNull type := by
  unfold orNull
  split
  · rename_i value
    exact if_pos value
  · rfl

theorem orNull_cases (type : DataType) : orNull type = type ∨ type.Within (orNull type) := by
  unfold orNull
  split
  · rename_i value
    simp only [isValueType, Bool.and_eq_true] at value
    exact .inr ⟨rfl, BaseType.join_self _, by simp [value.1, value.2]⟩
  · exact .inl rfl

def room (type : DataType) : Nat :=
  3 * type.base.room + (type.nullable ^^ type.isValueType).toNat + (type.rank != 0).toNat

theorem room_le (type : DataType) : type.room ≤ 20 := by
  have base := type.base.room_le
  have null := (type.nullable ^^ type.isValueType).toNat_le
  have rank := (type.rank != 0).toNat_le
  unfold room
  omega

theorem room_pos {type : DataType} (differs : (type == ofPrimitive .object) = false) :
    0 < type.room := by
  rcases type with ⟨base, rank, nullable⟩
  by_cases isObject : base = .primitive .object
  · subst isObject
    simp only [room, isValueType, BaseType.isValueType, Primitive.isValueType, Bool.and_false,
      Bool.xor_false]
    by_cases scalar : rank = 0
    · cases nullable with
      | true => exact Nat.lt_add_right _ (Nat.lt_add_left _ Nat.zero_lt_one)
      | false =>
        subst scalar
        exact absurd differs (by decide)
    · have ranked : (rank != 0) = true := by simpa using scalar
      rw [ranked]
      exact Nat.lt_add_left _ Nat.zero_lt_one
  · have positive : 0 < base.room := by
      cases base with
      | primitive kind =>
        cases kind <;> first | exact absurd rfl isObject | decide
      | _ => exact Nat.zero_lt_one
    simp only [room]
    omega

theorem room_orNull (type : DataType) : orNull type = type ∨ (orNull type).room < type.room := by
  unfold orNull
  split
  · rename_i value
    rcases type with ⟨base, rank, nullable⟩
    cases nullable with
    | true => exact .inl rfl
    | false =>
      refine .inr ?_
      have still : isValueType ⟨base, rank, true⟩ = true := value
      simp only [room, value, still]
      simp
  · exact .inl rfl

private theorem null_rises (n m value : Bool) (changed : ((n || m) && value) ≠ n) :
    (((n || m) && value) ^^ value).toNat < (n ^^ value).toNat := by
  revert n m value
  decide

theorem room_joinTypes {left right : DataType} (differs : (joinTypes left right == left) = false) :
    (joinTypes left right).room < left.room := by
  rw [joinTypes_eq] at differs ⊢
  split at differs
  · rename_i equal
    rw [if_pos equal]
    rcases BaseType.room_join left.base right.base with same | lower
    · -- The element type stays, so the rise is one in nullability.
      rw [same] at differs ⊢
      have changed : ((left.nullable || right.nullable) && left.rank == 0
          && left.base.isValueType) ≠ left.nullable := by
        intro kept
        rw [kept] at differs
        rw [(beq_iff _ _).2 ⟨BaseType.beq_refl _, rfl, rfl⟩] at differs
        exact absurd differs (by decide)
      rw [Bool.and_assoc] at changed
      have lower := null_rises _ _ _ changed
      simp only [room, isValueType, Bool.and_assoc]
      omega
    · have null := ((left.nullable || right.nullable) && left.rank == 0
        && (left.base.join right.base).isValueType ^^ (left.rank == 0
          && (left.base.join right.base).isValueType)).toNat_le
      simp only [room, isValueType]
      omega
  · rename_i unequal
    rw [if_neg unequal]
    have upper : (ofPrimitive .object).room = 0 := by decide
    rw [upper]
    refine room_pos ?_
    rw [Bool.eq_false_iff] at differs ⊢
    intro same
    obtain ⟨base, rank, null⟩ := (beq_iff _ _).1 same
    exact differs ((beq_iff _ _).2 ⟨BaseType.beq_symm base, rank.symm, null.symm⟩)

end DataType

namespace Descriptor

/-- Joining the second to the first gives the second. -/
def Precedes (lower upper : Descriptor) : Prop := lower.join upper = upper

theorem precedes_refl (descriptor : Descriptor) : descriptor.Precedes descriptor :=
  join_self descriptor

private theorem join_eq_object (left : Descriptor) : left.join object = object := by
  cases left with
  | type desc =>
    unfold join
    split
    · rename_i same
      have equal : desc == .ofPrimitive .object := same
      obtain ⟨base, rank, null⟩ := (DataType.beq_iff _ _).1 equal
      rcases desc with ⟨base', rank', nullable⟩
      cases base' <;> simp_all [DataType.ofPrimitive, BEq.beq, BaseType.same, object, ofPrimitive]
    · have upper : joinTypes desc (.ofPrimitive .object) = .ofPrimitive .object := by
        rw [DataType.joinTypes_eq]
        split
        · rename_i rank
          simp [DataType.ofPrimitive, BaseType.join_object, BaseType.isValueType,
            Primitive.isValueType] at rank ⊢
          exact rank
        · rfl
      exact congrArg type upper
  | deferred | null | form | missing => rfl

theorem precedes_iff {lower upper : Descriptor} : lower.Precedes upper ↔
    lower = upper ∨ lower = .missing ∨ upper = object ∨
      (lower = .null ∧ ∃ desc, upper = .type desc ∧ orNull desc = desc) ∨
      ∃ left right, lower = .type left ∧ upper = .type right ∧ left.Within right := by
  constructor
  · intro precedes
    unfold Precedes join at precedes
    split at precedes
    · exact .inl precedes
    · split at precedes
      · exact .inr (.inl rfl)
      · exact .inl precedes
      · exact .inr (.inr (.inr (.inl ⟨rfl, _, rfl, Descriptor.type.inj precedes⟩)))
      · simp at precedes
      · rename_i left right _
        have joined := Descriptor.type.inj precedes
        rcases DataType.joinTypes_cases left right with isObject | within
        · exact .inr (.inr (.inl (congrArg Descriptor.type (joined.symm.trans isObject))))
        · exact .inr (.inr (.inr (.inr ⟨left, right, rfl, rfl, joined ▸ within⟩)))
      · exact .inr (.inr (.inl precedes.symm))
  · rintro (rfl | rfl | rfl | ⟨rfl, desc, rfl, nulled⟩ | ⟨left, right, rfl, rfl, within⟩)
    · exact precedes_refl lower
    · exact missing_join upper
    · exact join_eq_object lower
    · exact congrArg Descriptor.type nulled
    · have joined := DataType.joinTypes_of_within within
      unfold Precedes join
      split
      · rename_i same
        have equal : left == right := same
        obtain ⟨_, _, null⟩ := (DataType.beq_iff _ _).1 equal
        have base := within.base
        rw [BaseType.join, if_pos ((DataType.beq_iff _ _).1 equal).1] at base
        rcases left with ⟨base', rank', nullable'⟩
        rcases right with ⟨base'', rank'', nullable''⟩
        simp_all
      · exact congrArg Descriptor.type joined

theorem Precedes.trans {first second third : Descriptor} (left : first.Precedes second)
    (right : second.Precedes third) : first.Precedes third := by
  have upper {desc : DataType} (within : (DataType.ofPrimitive .object).Within desc) :
      type desc = object := congrArg type (DataType.eq_object_of_within within)
  rw [precedes_iff] at left right ⊢
  rcases left with rfl | rfl | rfl | ⟨rfl, desc, rfl, nulled⟩ | ⟨low, mid, rfl, rfl, within⟩
  · exact right
  · exact .inr (.inl rfl)
  · rcases right with rfl | absurd | rfl | ⟨absurd, _⟩ | ⟨low, high, isLow, rfl, within⟩
    · exact .inr (.inr (.inl rfl))
    · exact nomatch absurd
    · exact .inr (.inr (.inl rfl))
    · exact nomatch absurd
    · obtain rfl := Descriptor.type.inj isLow
      exact .inr (.inr (.inl (upper within)))
  · rcases right with rfl | absurd | rfl | ⟨absurd, _⟩ | ⟨low, high, isLow, rfl, within⟩
    · exact .inr (.inr (.inr (.inl ⟨rfl, desc, rfl, nulled⟩)))
    · exact nomatch absurd
    · exact .inr (.inr (.inl rfl))
    · exact nomatch absurd
    · obtain rfl := Descriptor.type.inj isLow
      exact .inr (.inr (.inr (.inl ⟨rfl, high, rfl, DataType.orNull_of_within within nulled⟩)))
  · rcases right with rfl | absurd | rfl | ⟨absurd, _⟩ | ⟨low', high, isLow, rfl, within'⟩
    · exact .inr (.inr (.inr (.inr ⟨low, mid, rfl, rfl, within⟩)))
    · exact nomatch absurd
    · exact .inr (.inr (.inl rfl))
    · exact nomatch absurd
    · obtain rfl := Descriptor.type.inj isLow
      exact .inr (.inr (.inr (.inr ⟨low, high, rfl, rfl, within.trans within'⟩)))

theorem join_cases (left right : Descriptor) : left.join right = left ∨
    (left = .missing ∧ left.join right = right) ∨ left.join right = object ∨
      (left = .null ∧ ∃ desc, left.join right = .type (orNull desc)) ∨
      (∃ desc, left = .type desc ∧ left.join right = .type (orNull desc)) ∨
      ∃ low high, left = .type low ∧ left.join right = .type (joinTypes low high) := by
  by_cases same : left == right
  · exact .inl (by simp [join, same])
  · cases left with
    | missing => exact .inr (.inl ⟨rfl, missing_join right⟩)
    | null =>
      cases right with
      | type desc => exact .inr (.inr (.inr (.inl ⟨rfl, desc, rfl⟩)))
      | missing | null => exact .inl rfl
      | deferred | form => exact .inr (.inr (.inl rfl))
    | type low =>
      cases right with
      | type high =>
        exact .inr (.inr (.inr (.inr (.inr ⟨low, high, rfl, by simp [join, same]⟩))))
      | null => exact .inr (.inr (.inr (.inr (.inl ⟨low, rfl, rfl⟩))))
      | missing => exact .inl rfl
      | deferred | form => exact .inr (.inr (.inl rfl))
    | deferred decl =>
      cases right with
      | missing => exact .inl rfl
      | deferred => exact .inr (.inr (.inl (by simp [join, same])))
      | type | null | form => exact .inr (.inr (.inl rfl))
    | form =>
      cases right with
      | missing | form => exact .inl rfl
      | type | null | deferred => exact .inr (.inr (.inl rfl))

theorem precedes_join (left right : Descriptor) : left.Precedes (left.join right) := by
  rw [precedes_iff]
  rcases join_cases left right with kept | ⟨rfl, _⟩ | isObject | ⟨rfl, desc, joined⟩ |
    ⟨desc, rfl, joined⟩ | ⟨low, high, rfl, joined⟩
  · exact .inl kept.symm
  · exact .inr (.inl rfl)
  · exact .inr (.inr (.inl isObject))
  · exact .inr (.inr (.inr (.inl ⟨rfl, _, joined, DataType.orNull_orNull desc⟩)))
  · rcases DataType.orNull_cases desc with kept | within
    · exact .inl (joined.trans (congrArg Descriptor.type kept)).symm
    · exact .inr (.inr (.inr (.inr ⟨desc, _, rfl, joined, within⟩)))
  · rcases DataType.joinTypes_cases low high with isObject | within
    · exact .inr (.inr (.inl (joined.trans (congrArg Descriptor.type isObject))))
    · exact .inr (.inr (.inr (.inr ⟨low, _, rfl, joined, within⟩)))

def room : Descriptor → Nat
  | .type desc => desc.room
  | .deferred _ | .form => 1
  | .null => 30
  | .missing => 40

theorem room_le (descriptor : Descriptor) : descriptor.room ≤ 40 := by
  cases descriptor with
  | type desc => exact Nat.le_trans desc.room_le (by decide)
  | deferred | null | form | missing => simp [room]

private theorem room_pos {descriptor : Descriptor} (differs : (object == descriptor) = false) :
    0 < descriptor.room := by
  cases descriptor with
  | type desc =>
    refine DataType.room_pos (Bool.eq_false_iff.2 fun same => ?_)
    have equal : type desc == object := same
    exact Bool.eq_false_iff.1 differs (beq_symm equal)
  | deferred | null | form | missing => simp [room]

theorem room_join {left right : Descriptor} (differs : (left.join right == left) = false) :
    (left.join right).room < left.room := by
  rcases join_cases left right with kept | ⟨rfl, joined⟩ | isObject | ⟨rfl, desc, joined⟩ |
    ⟨desc, rfl, joined⟩ | ⟨low, high, rfl, joined⟩
  · rw [kept, beq_refl] at differs
    exact absurd differs (by decide)
  · rw [joined] at differs ⊢
    cases right with
    | type desc => exact Nat.lt_of_le_of_lt desc.room_le (by decide)
    | deferred | null | form => simp [room]
    | missing => exact absurd differs (by decide)
  · rw [isObject] at differs ⊢
    exact room_pos differs
  · rw [joined]
    exact Nat.lt_of_le_of_lt (orNull desc).room_le (by decide)
  · rw [joined] at differs ⊢
    rcases desc.room_orNull with kept | lower
    · rw [kept, beq_refl] at differs
      exact absurd differs (by decide)
    · exact lower
  · rw [joined] at differs ⊢
    exact DataType.room_joinTypes differs

theorem eq_ofPrimitive_of_beq {descriptor : Descriptor} {kind : Primitive}
    (same : descriptor == .ofPrimitive kind) : descriptor = .ofPrimitive kind := by
  cases descriptor with
  | type desc =>
    rcases desc with ⟨base, rank, nullable⟩
    have parts : (base == .primitive kind && rank == 0 && nullable == false) = true := same
    simp only [Bool.and_eq_true, beq_iff_eq] at parts
    obtain ⟨⟨sameBase, rfl⟩, rfl⟩ := parts
    cases base with
    | primitive other =>
      have equal : (other == kind) = true := sameBase
      rw [eq_of_beq equal]
      rfl
    | _ => exact nomatch sameBase
  | _ => exact nomatch same

theorem merge_eq_join (lookup : KnownDecls) {left right : Descriptor}
    (first : left.isDeferred = false) (second : right.isDeferred = false) :
    left.merge lookup right = left.join right := by
  unfold merge
  split
  · rename_i same
    simp [join, same]
  · rw [follow_of_known first, follow_of_known second]

end Descriptor

end ScriptMigration
