import ScriptMigration.Scope.Members

/-! What adding a member does to the tables of a type. A name stands in one of them at most, so a
lookup does not depend on the order in which they are tried: it gives the member that came first. -/
namespace ScriptMigration

namespace MemberScope

variable {scope : MemberScope} {member found : Node} {key : FoldedName}

theorem declares_eq (scope : MemberScope) (key : FoldedName) :
    scope.declares key = (scope.lookup? key).isSome := by
  simp [declares, lookup?, Bool.or_assoc]

theorem addMember_of_nameless (nameless : member.memberName? = none) :
    scope.addMember member = scope := by
  simp [addMember, nameless]

theorem addMember_of_taken {name : String} (named : member.memberName? = some name)
    (taken : (scope.lookup? (.of name)).isSome) :
    scope.addMember member =
      { scope with duplicates := scope.duplicates ++ [⟨name, member.line⟩] } := by
  simp [addMember, named, declares_eq, taken]

theorem lookup?_addMember_of_free {name : String} (isMember : member.shape.isMember)
    (named : member.memberName? = some name) (free : scope.lookup? (.of name) = none)
    (key : FoldedName) : (scope.addMember member).lookup? key =
      if FoldedName.of name = key then some member else scope.lookup? key := by
  have unknown : scope.declares (.of name) = false := by simp [declares_eq, free]
  simp only [lookup?, Option.or_eq_none_iff] at free
  obtain ⟨noField, noMethod, noProperty, noType⟩ := free
  cases shape : member.shape with
  | field | method | property | type =>
    by_cases same : FoldedName.of name = key
    · subst same
      simp [addMember, named, unknown, shape, lookup?, noField, noMethod, noProperty]
    · simp [addMember, named, unknown, shape, lookup?, Std.HashMap.getElem?_insert, same]
  | _ => simp [shape, Shape.isMember] at isMember

theorem lookup?_addMember (isMember : member.shape.isMember) (key : FoldedName) :
    (scope.addMember member).lookup? key =
      (scope.lookup? key).or (if member.memberName?.map .of = some key then some member else none) := by
  cases named : member.memberName? with
  | none => simp [addMember_of_nameless named]
  | some name =>
    cases taken : scope.lookup? (.of name) with
    | none =>
      rw [lookup?_addMember_of_free isMember named taken]
      by_cases same : FoldedName.of name = key
      · subst same
        simp [taken]
      · simp [same]
    | some first =>
      rw [addMember_of_taken named (by simp [taken])]
      change scope.lookup? key = _
      by_cases same : FoldedName.of name = key
      · subst same
        simp [taken]
      · simp [same]

theorem lookup?_addMember_cases (taken : (scope.addMember member).lookup? key = some found) :
    scope.lookup? key = some found ∨ found = member ∧ member.memberName?.isSome := by
  unfold addMember at taken
  split at taken
  · exact .inl taken
  · rename_i name named
    dsimp only at taken
    split at taken
    · exact .inl taken
    · split at taken
      all_goals
        simp only [lookup?, Option.or_eq_some_iff, Std.HashMap.getElem?_insert] at taken ⊢
        grind

theorem outer_addMember (scope : MemberScope) (member : Node) :
    (scope.addMember member).outer = scope.outer := by
  unfold addMember
  split
  · rfl
  · dsimp only
    split
    · rfl
    · split <;> rfl

theorem name_addMember (scope : MemberScope) (member : Node) :
    (scope.addMember member).name = scope.name := by
  unfold addMember
  split
  · rfl
  · dsimp only
    split
    · rfl
    · split <;> rfl

section OfDecl

variable {decl : TypeDecl Node} {outer : Option NodeId} {name : String}

theorem outer_ofDecl (decl : TypeDecl Node) (outer : Option NodeId) :
    (ofDecl decl outer).outer = outer := by
  unfold ofDecl
  refine List.foldlRecOn (motive := fun scope : MemberScope => scope.outer = outer) _ _ rfl ?_
  intro scope same member _
  rw [outer_addMember, same]

theorem name_ofDecl (decl : TypeDecl Node) (outer : Option NodeId) :
    (ofDecl decl outer).name = decl.name := by
  unfold ofDecl
  refine List.foldlRecOn (motive := fun scope : MemberScope => scope.name = decl.name) _ _ rfl ?_
  intro scope same member _
  rw [name_addMember, same]

theorem mem_of_find?_ofDecl (found : (ofDecl decl outer).find? name = some member) :
    member ∈ decl.members ∧ member.memberName?.isSome := by
  have entries : ∀ (key : FoldedName) (member : Node), (ofDecl decl outer).lookup? key =
      some member → member ∈ decl.members ∧ member.memberName?.isSome := by
    refine List.foldlRecOn (motive := fun scope : MemberScope => ∀ (key : FoldedName)
      (member : Node), scope.lookup? key = some member →
        member ∈ decl.members ∧ member.memberName?.isSome) _ addMember ?_ ?_
    · intro key member taken
      simp [lookup?] at taken
    · intro scope known added listed key member taken
      rcases lookup?_addMember_cases taken with old | ⟨rfl, named⟩
      · exact known key member old
      · exact ⟨listed, named⟩
  exact entries _ member found

end OfDecl

end MemberScope

end ScriptMigration
