import ScriptMigration.Proofs.Descriptor.Ascent

/-! What a declaration has taken in. A descriptor absorbs another that changes nothing when it is joined
to it. A join absorbs what was joined, and a descriptor that rises goes on absorbing what it
absorbed. None of this needs sound descriptors. -/
namespace ScriptMigration

namespace BaseType

theorem object_join (base : BaseType) :
    (primitive .object).join base = .primitive .object := by
  cases base with
  | primitive kind => cases kind <;> rfl
  | _ => rfl

private theorem widen_comm : ∀ x ∈ Primitive.all, ∀ y ∈ Primitive.all, x ≠ y →
    x.widen y = y.widen x := by
  decide +kernel

theorem join_of_widens {x y : Primitive} (widens : x.Widens y) :
    (primitive y).join (.primitive x) = .primitive y := by
  by_cases same : x = y
  · rw [same, join_self]
  · rcases widens.wider with equal | wider
    · exact absurd equal same
    · have swapped := widen_comm y (Primitive.mem_all y) x (Primitive.mem_all x) (Ne.symm same)
      unfold join
      simp [primitive?, Ne.symm same, widens.left, widens.right, swapped, wider]

theorem join_join_right (left right : BaseType) :
    (left.join right).join right = left.join right := by
  by_cases same : left == right
  · have kept : left.join right = left := by simp [join, same]
    rw [kept, kept]
  · have either : left.join right = .primitive .object ∨
        ∃ x y, right = .primitive y ∧ left.join right = .primitive x ∧ y.Widens x := by
      cases left with
      | primitive x =>
        cases right with
        | primitive y =>
          have apart : x ≠ y := by simpa using same
          by_cases numeric : x.isNumeric && y.isNumeric
          · simp only [Bool.and_eq_true] at numeric
            refine .inr ⟨x.widen y, y, rfl, ?_,
              Primitive.Widens.widen_right numeric.1 numeric.2 apart⟩
            simp [join, primitive?, apart, numeric]
          · exact .inl (by simp [join, primitive?, apart, numeric])
        | _ => exact .inl rfl
      | external | script => exact .inl (by simp [join, same, primitive?])
    rcases either with isObject | ⟨x, y, rfl, joined, widens⟩
    · rw [isObject, object_join]
    · rw [joined, join_of_widens widens]

theorem join_eq_left_of_beq {left right : BaseType} (same : left == left.join right) :
    left.join right = left := by
  rcases join_cases left right with kept | isObject | ⟨x, y, rfl, joined, _⟩
  · exact kept
  · rw [isObject] at same ⊢
    cases left with
    | primitive kind =>
      rw [primitive_beq, beq_iff_eq] at same
      exact congrArg _ same.symm
    | external | script => exact nomatch same
  · rw [joined] at same ⊢
    rw [primitive_beq, beq_iff_eq] at same
    exact congrArg _ same.symm

theorem join_eq_left_of_rises {lower upper incoming : BaseType}
    (rises : lower.join upper = upper) (absorbs : lower.join incoming = lower) :
    upper.join incoming = upper := by
  rcases join_eq_right_iff.1 rises with rfl | rfl | ⟨x, y, rfl, rfl, widens⟩
  · exact absorbs
  · exact object_join incoming
  · have number : x ≠ .object := fun isObject => absurd (isObject ▸ widens.left) (by decide)
    cases incoming with
    | primitive z =>
      by_cases same : x = z
      · exact same ▸ join_of_widens widens
      · by_cases numeric : z.isNumeric
        · have joined : (primitive x).join (.primitive z) = .primitive (x.widen z) := by
            simp [join, primitive?, same, widens.left, numeric]
          have kept := BaseType.primitive.inj (joined.symm.trans absorbs)
          have wider := Primitive.Widens.widen_right widens.left numeric same
          rw [kept] at wider
          exact join_of_widens (wider.trans widens)
        · have joined : (primitive x).join (.primitive z) = .primitive .object := by
            simp [join, primitive?, same, numeric]
          exact absurd (BaseType.primitive.inj (absorbs.symm.trans joined)) number
    | external type =>
      exact absurd (BaseType.primitive.inj (absorbs.symm.trans rfl)) number
    | script decl name =>
      exact absurd (BaseType.primitive.inj (absorbs.symm.trans rfl)) number

end BaseType

namespace Descriptor

def Absorbs (upper incoming : Descriptor) : Prop := upper.join incoming = upper

theorem absorbs_self (descriptor : Descriptor) : descriptor.Absorbs descriptor :=
  join_self descriptor

theorem absorbs_missing (descriptor : Descriptor) : descriptor.Absorbs .missing :=
  join_missing descriptor

theorem object_absorbs (descriptor : Descriptor) : object.Absorbs descriptor := by
  cases descriptor with
  | type desc =>
    unfold Absorbs join
    split
    · rfl
    · have joined : joinTypes (.ofPrimitive .object) desc = .ofPrimitive .object := by
        rw [DataType.joinTypes_eq]
        split
        · simp [DataType.ofPrimitive, BaseType.object_join, BaseType.isValueType,
            Primitive.isValueType]
        · rfl
      exact congrArg type joined
  | deferred | null | form | missing => rfl

private theorem type_absorbs_iff {upper incoming : DataType} :
    (type upper).Absorbs (.type incoming) ↔
      upper == incoming ∨ joinTypes upper incoming = upper := by
  unfold Absorbs join
  constructor
  · intro absorbs
    split at absorbs
    · rename_i same
      exact .inl same
    · exact .inr (Descriptor.type.inj absorbs)
  · rintro (same | joined)
    · have equal : type upper == type incoming := same
      rw [if_pos equal]
    · split
      · rfl
      · exact congrArg type joined

private theorem joinTypes_join (left right : DataType) :
    joinTypes (joinTypes left right) right = joinTypes left right := by
  rw [DataType.joinTypes_eq left right]
  split
  · rename_i rank
    rw [DataType.joinTypes_eq]
    dsimp only
    rw [if_pos rank, BaseType.join_join_right]
    congr 1
    cases left.nullable <;> cases right.nullable <;> cases left.rank == 0 <;>
      cases (left.base.join right.base).isValueType <;> rfl
  · have absorbs := type_absorbs_iff.1 (object_absorbs (.type right))
    rcases absorbs with same | joined
    · obtain ⟨_, rank, _⟩ := (DataType.beq_iff _ _).1 same
      rw [DataType.joinTypes_eq, if_pos rank]
      simp [DataType.ofPrimitive, BaseType.object_join, BaseType.isValueType,
        Primitive.isValueType]
    · exact joined

private theorem joinTypes_of_within {lower upper incoming : DataType}
    (within : lower.Within upper)
    (absorbs : lower == incoming ∨ joinTypes lower incoming = lower) :
    joinTypes upper incoming = upper := by
  have flags : ∀ low high inc scalar value value' : Bool, (value' → value) →
      high = ((low || high) && scalar && value') →
      (inc = low ∨ low = ((low || inc) && scalar && value)) →
      ((high || inc) && scalar && value') = high := by decide
  have kept := BaseType.isValueType_of_join within.base
  rcases absorbs with same | joined
  · obtain ⟨base, rank, null⟩ := (DataType.beq_iff _ _).1 same
    have lowBase : lower.base.join incoming.base = lower.base := by simp [BaseType.join, base]
    rw [DataType.joinTypes_eq, if_pos (within.rank.symm.trans rank),
      BaseType.join_eq_left_of_rises within.base lowBase]
    rw [flags _ _ _ _ _ _ kept within.nullable (.inl null.symm)]
  · rw [DataType.joinTypes_eq] at joined
    split at joined
    · rename_i rank
      have lowBase := congrArg DataType.base joined
      have lowNull := congrArg DataType.nullable joined
      dsimp only at lowBase lowNull
      rw [lowBase, within.rank] at lowNull
      rw [DataType.joinTypes_eq, if_pos (within.rank.symm.trans rank),
        BaseType.join_eq_left_of_rises within.base lowBase]
      rw [flags _ _ _ _ _ _ kept within.nullable (.inr lowNull.symm)]
    · -- Two types of different ranks join to `object`, which is as high as a type can be.
      have isObject := DataType.eq_object_of_within (joined ▸ within)
      rw [isObject]
      rcases type_absorbs_iff.1 (object_absorbs (.type incoming)) with same | kept
      · exact absurd (((DataType.beq_iff _ _).1 same).2.1) (by
          rename_i unequal
          rw [← joined] at unequal
          exact unequal)
      · exact kept

theorem Absorbs.mono {lower upper incoming : Descriptor} (absorbs : lower.Absorbs incoming)
    (rises : lower.Precedes upper) : upper.Absorbs incoming := by
  rcases precedes_iff.1 rises with rfl | rfl | rfl | ⟨rfl, desc, rfl, nulled⟩ |
    ⟨left, right, rfl, rfl, within⟩
  · exact absorbs
  · rw [Absorbs, missing_join] at absorbs
    exact absorbs ▸ absorbs_missing upper
  · exact object_absorbs incoming
  · cases incoming with
    | missing => exact absorbs_missing _
    | null => exact congrArg type nulled
    | type | deferred | form => exact nomatch absorbs
  · have topped (isObject : object = .type left) : type right = object := by
      obtain rfl := Descriptor.type.inj isObject
      exact congrArg type (DataType.eq_object_of_within within)
    cases incoming with
    | missing => exact absorbs_missing _
    | null =>
      have nulled : orNull left = left := Descriptor.type.inj absorbs
      exact congrArg type (DataType.orNull_of_within within nulled)
    | type high =>
      exact type_absorbs_iff.2 (.inr (joinTypes_of_within within (type_absorbs_iff.1 absorbs)))
    | deferred | form =>
      rw [topped absorbs]
      exact object_absorbs _

theorem absorbs_of_beq {left right : Descriptor} (same : left == left.join right) :
    left.Absorbs right := by
  rcases join_cases left right with kept | ⟨rfl, joined⟩ | isObject | ⟨rfl, desc, joined⟩ |
    ⟨desc, rfl, joined⟩ | ⟨low, high, rfl, joined⟩
  · exact kept
  · rw [joined] at same
    cases right with
    | missing => exact absorbs_missing _
    | type | deferred | null | form => exact nomatch same
  · rw [isObject] at same
    rw [eq_ofPrimitive_of_beq same]
    exact object_absorbs right
  · rw [joined] at same
    exact nomatch same
  · rw [joined, type_beq] at same
    obtain ⟨_, _, null⟩ := (DataType.beq_iff _ _).1 same
    refine joined.trans (congrArg type ?_)
    unfold orNull at null ⊢
    split
    · rename_i value
      rw [if_pos value] at null
      rcases desc with ⟨base, rank, nullable⟩
      exact congrArg _ null.symm
    · rfl
  · rw [joined, type_beq] at same
    refine joined.trans (congrArg type ?_)
    rw [DataType.joinTypes_eq] at same ⊢
    split at same
    · rename_i rank
      rw [if_pos rank]
      obtain ⟨base, _, null⟩ := (DataType.beq_iff _ _).1 same
      have kept := BaseType.join_eq_left_of_beq base
      rcases low with ⟨base', rank', nullable⟩
      simp only [DataType.mk.injEq]
      exact ⟨kept, trivial, null.symm⟩
    · rename_i unequal
      rw [if_neg unequal]
      have isObject : type low = object := eq_ofPrimitive_of_beq same
      exact (Descriptor.type.inj isObject).symm

theorem join_absorbs (left right : Descriptor) : (left.join right).Absorbs right := by
  by_cases same : left == right
  · have kept : left.join right = left := by simp [join, same]
    rw [kept]
    exact kept
  · cases right with
    | missing => exact absorbs_missing _
    | type high =>
      cases left with
      | missing => exact absorbs_self _
      | null =>
        have nulled : (null).join (.type high) = .type (orNull high) := rfl
        rw [nulled, type_absorbs_iff]
        by_cases value : high.isValueType
        · refine .inr ?_
          simp only [DataType.isValueType, Bool.and_eq_true] at value
          rw [DataType.joinTypes_eq]
          simp [orNull, DataType.isValueType, BaseType.join_self, value.1, value.2]
        · have kept : orNull high = high := by simp [orNull, value]
          rw [kept]
          exact .inl ((DataType.beq_iff _ _).2 ⟨BaseType.beq_refl _, rfl, rfl⟩)
      | type low =>
        have joined : (type low).join (.type high) = .type (joinTypes low high) := by
          simp [join, same]
        rw [joined, type_absorbs_iff]
        exact .inr (joinTypes_join low high)
      | deferred | form => exact object_absorbs _
    | null =>
      cases left with
      | missing => exact absorbs_self _
      | null => exact absorbs_self _
      | type low => exact congrArg type (DataType.orNull_orNull low)
      | deferred | form => exact object_absorbs _
    | form =>
      cases left with
      | missing | form => exact absorbs_self _
      | type | null | deferred => exact object_absorbs _
    | deferred decl =>
      cases left with
      | missing => exact absorbs_self _
      | deferred other =>
        have joined : (deferred other).join (.deferred decl) = object := by simp [join, same]
        rw [joined]
        exact object_absorbs _
      | type | null | form => exact object_absorbs _

end Descriptor

end ScriptMigration
