import ScriptMigration.Proofs.Resolution.Start

/-! Names are declared in the first sweep only. A name that is visited stands for something from then
on or is never declared, and putting the new variables into the tree does not change that. -/
namespace ScriptMigration

section Place

variable {implicit : List ImplicitLocal}

open ResolutionState (declareIn)

theorem Node.id_mapUp_declareIn (node : Node) : (node.mapUp (declareIn implicit)).id = node.id := by
  rw [mapUp_eq, ResolutionState.id_declareIn, id_rebuilt]

theorem Node.nameText?_mapUp_declareIn (node : Node) :
    (node.mapUp (declareIn implicit)).nameText? = node.nameText? := by
  unfold nameText?
  by_cases isBlock : node.shape.family = .block
  · have mapped : (node.mapUp (declareIn implicit)).shape.family = node.shape.family :=
      ResolutionState.family_mapUp_declareIn node
    rw [isBlock] at mapped
    obtain ⟨stmts, shape⟩ := (Shape.family_eq_block_iff _).1 isBlock
    obtain ⟨stmts', shape'⟩ := (Shape.family_eq_block_iff _).1 mapped
    rw [shape, shape']
    rfl
  · rw [ResolutionState.shape_mapUp_declareIn isBlock]
    cases node.shape with
    | loop test body => cases test <;> rfl
    | _ => rfl

namespace Place

variable (place : Place)

theorem method?_mapUp_declareIn : (place.mapUp (declareIn implicit)).method? =
    place.method?.map (Node.mapUp (declareIn implicit)) := by
  have kinds : ((fun node : Node => node.shape.isMethod || node.shape.isType) ∘
      Node.mapUp (declareIn implicit)) = fun node => node.shape.isMethod || node.shape.isType := by
    funext node
    simp only [Function.comp_apply, Shape.isMethod_eq, Shape.isType_eq,
      ResolutionState.family_mapUp_declareIn]
  unfold method? mapUp
  rw [List.find?_map, kinds]
  cases place.around.find? fun node => node.shape.isMethod || node.shape.isType with
  | none => rfl
  | some node =>
    simp only [Option.map_some, Option.filter_some, Shape.isMethod_eq,
      ResolutionState.family_mapUp_declareIn]
    split <;> rfl

theorem types_mapUp_declareIn : (place.mapUp (declareIn implicit)).types.map Node.id =
    place.types.map Node.id := by
  have kinds : ((fun node : Node => node.shape.isType) ∘ Node.mapUp (declareIn implicit)) =
      fun node => node.shape.isType := by
    funext node
    simp only [Function.comp_apply, Shape.isType_eq, ResolutionState.family_mapUp_declareIn]
  have ids : (Node.id ∘ Node.mapUp (declareIn implicit)) = Node.id := by
    funext node
    exact node.id_mapUp_declareIn
  unfold types mapUp
  rw [List.filter_map, List.map_map, kinds, ids]

private theorem parent_cases : (place.mapUp (declareIn implicit)).parent? = none ∧
      place.parent? = none ∨
    (∃ parent stmts stmts', place.parent? = some parent ∧ parent.shape = .block stmts ∧
      (place.mapUp (declareIn implicit)).parent?.map Node.shape = some (.block stmts')) ∨
    ∃ parent, place.parent? = some parent ∧
      (place.mapUp (declareIn implicit)).parent?.map Node.shape =
        some (parent.shape.mapParts fun part _ => part.mapUp (declareIn implicit)) := by
  have mapped : (place.mapUp (declareIn implicit)).parent? =
      place.parent?.map (Node.mapUp (declareIn implicit)) := List.head?_map
  rw [mapped]
  cases place.parent? with
  | none => exact .inl ⟨rfl, rfl⟩
  | some parent =>
    by_cases isBlock : parent.shape.family = .block
    · have family : (parent.mapUp (declareIn implicit)).shape.family = parent.shape.family :=
        ResolutionState.family_mapUp_declareIn parent
      obtain ⟨stmts, shape⟩ := (Shape.family_eq_block_iff _).1 isBlock
      obtain ⟨stmts', shape'⟩ := (Shape.family_eq_block_iff _).1 (family.trans isBlock)
      exact .inr (.inl ⟨parent, stmts, stmts', rfl, shape, congrArg some shape'⟩)
    · exact .inr (.inr ⟨parent, rfl,
        congrArg some (ResolutionState.shape_mapUp_declareIn isBlock)⟩)

theorem mayDeclare_mapUp_declareIn :
    Typing.mayDeclare (place.mapUp (declareIn implicit)) = Typing.mayDeclare place := by
  have own : (place.mapUp (declareIn implicit)).node.id = place.node.id :=
    place.node.id_mapUp_declareIn
  unfold Typing.mayDeclare isAssignTarget
  rw [own]
  rcases @parent_cases implicit place with ⟨mapped, none'⟩ |
    ⟨parent, stmts, stmts', found, shape, mapped⟩ | ⟨parent, found, mapped⟩
  · rw [mapped, none']
  · rw [mapped, found, Option.map_some, shape]
  · rw [mapped, found, Option.map_some]
    cases parent.shape with
    | loop test body => cases test <;> rfl
    | assign | forRange | forEach | redim =>
      simp only [Shape.mapParts, Node.id_mapUp_declareIn]
    | _ => rfl

theorem isOwnResult_mapUp_declareIn (decl : MethodDecl Node) (name : String) :
    Surroundings.isOwnResult (place.mapUp (declareIn implicit)) decl name =
      Surroundings.isOwnResult place decl name := by
  have own : (place.mapUp (declareIn implicit)).node.id = place.node.id :=
    place.node.id_mapUp_declareIn
  unfold Surroundings.isOwnResult
  rw [own]
  rcases @parent_cases implicit place with ⟨mapped, none'⟩ |
    ⟨parent, stmts, stmts', found, shape, mapped⟩ | ⟨parent, found, mapped⟩
  · rw [mapped, none']
  · rw [mapped, found, Option.map_some, shape]
  · rw [mapped, found, Option.map_some]
    cases parent.shape with
    | loop test body => cases test <;> rfl
    | call parens callee args =>
      simp only [Shape.mapParts, Node.id_mapUp_declareIn]
      cases args <;> rfl
    | _ => rfl

end Place

variable {around : Surroundings} {bodies : Std.HashMap NodeId LocalScope}

theorem Surroundings.find?_mapUp_declareIn (place : Place) (name : String) :
    around.find? bodies (place.mapUp (declareIn implicit)) name = around.find? bodies place name := by
  unfold find?
  simp only [place.types_mapUp_declareIn, place.method?_mapUp_declareIn]
  cases place.method? with
  | none => rfl
  | some method =>
    simp only [Option.map_some, Option.bind_some, Node.id_mapUp_declareIn,
      ResolutionState.methodDecl?_mapUp_declareIn]
    cases method.methodDecl? with
    | none => rfl
    | some decl =>
      simp only [Option.map_some, Option.filter_some, place.isOwnResult_mapUp_declareIn]
      -- Whether the name is the result is a matter of the name and the kind of the procedure.
      rw [show isOwnResult place { decl with
          params := decl.params.map (Node.mapUp (declareIn implicit))
          body := decl.body.mapUp (declareIn implicit) } name = isOwnResult place decl name from rfl]
      split <;> rfl

theorem Surroundings.declaresAt_mapUp_declareIn (place : Place) :
    around.declaresAt bodies (place.mapUp (declareIn implicit)) =
      around.declaresAt bodies place := by
  have text : (place.mapUp (declareIn implicit)).node.nameText? = place.node.nameText? :=
    place.node.nameText?_mapUp_declareIn
  unfold declaresAt
  rw [text]
  simp only [find?_mapUp_declareIn, place.mayDeclare_mapUp_declareIn,
    place.method?_mapUp_declareIn, Option.isSome_map]

end Place

section Declaring

variable {around : Surroundings} {roles : NodeId → Role} {allowed : Descriptor → Prop}
  {place : Place} {state after : ResolutionState} {bound : Nat}

theorem Touches.undeclared (touches : Touches around roles allowed place state after)
    (unneeded : around.declaresAt state.bodies place = false) :
    after.bodies = state.bodies ∧ after.fresh = state.fresh ∧ after.implicit = state.implicit := by
  induction touches with
  | refl => exact ⟨rfl, rfl, rfl⟩
  | tail _ touch ih =>
    obtain ⟨bodies, fresh, implicit⟩ := ih
    cases touch with
    | declare needed taken =>
      rw [bodies, unneeded] at needed
      exact absurd needed (by decide)
    | _ => exact ⟨bodies, fresh, implicit⟩

namespace Surroundings

variable {bodies bodies' : Std.HashMap NodeId LocalScope}

theorem find?_isSome_mono
    (grows : ∀ (method : NodeId) (name : String),
      (bodies[method]?.bind (bodyBinding? · name)).isSome →
        (bodies'[method]?.bind (bodyBinding? · name)).isSome)
    {name : String} (found : (around.find? bodies place name).isSome) :
    (around.find? bodies' place name).isSome := by
  unfold find? at found ⊢
  simp only [Option.isSome_or, Bool.or_eq_true] at found ⊢
  rcases found with own | form | inBody | rest
  · exact .inl own
  · exact .inr (.inl form)
  · refine .inr (.inr (.inl ?_))
    cases isMethod : place.method? with
    | none => simp [isMethod] at inBody
    | some method =>
      simp only [isMethod, Option.bind_some] at inBody ⊢
      exact grows method.id name inBody
  · exact .inr (.inr (.inr rest))

theorem declaresAt_eq_false_iff : around.declaresAt bodies place = false ↔
    ∀ text, place.node.nameText? = some text → (around.find? bodies place text).isSome ∨
      around.explicit ∨ Typing.mayDeclare place = false ∨ place.method? = none := by
  unfold declaresAt
  cases place.node.nameText? with
  | none => simp
  | some text =>
    simp only [Bool.and_eq_false_iff, Option.isNone_eq_false_iff, Bool.not_eq_eq_eq_not,
      Bool.not_false, Option.isSome_eq_false_iff, Option.isNone_iff_eq_none, or_assoc,
      Option.some.injEq, forall_eq']

theorem declaresAt_mono
    (grows : ∀ (method : NodeId) (name : String),
      (bodies[method]?.bind (bodyBinding? · name)).isSome →
        (bodies'[method]?.bind (bodyBinding? · name)).isSome)
    (unneeded : around.declaresAt bodies place = false) :
    around.declaresAt bodies' place = false := by
  rw [declaresAt_eq_false_iff] at unneeded ⊢
  intro text isName
  rcases unneeded text isName with found | rest
  · exact .inl (find?_isSome_mono grows found)
  · exact .inr rest

end Surroundings

theorem ResolutionState.declare_settles {id : NodeId}
    (taken : state.declare place (place.node.nameText?.getD "") = (some id, after)) :
    around.declaresAt after.bodies place = false := by
  obtain ⟨method, decl, isMethod, _, rfl, rfl⟩ := declare_eq_some taken
  rw [Surroundings.declaresAt_eq_false_iff]
  intro text isName
  refine .inl ?_
  rw [isName]
  have inBody : (((some method).bind fun node =>
      (state.bodies.insert method.id ((state.bodies.getD method.id {}).addLocal text
        ⟨state.fresh⟩))[node.id]?).bind (Surroundings.bodyBinding? · text)).isSome := by
    simp only [Option.bind_some, Std.HashMap.getElem?_insert_self, Surroundings.bodyBinding?,
      Option.isSome_or, Option.isSome_map, LocalScope.local?_addLocal_isSome, Bool.true_or]
  unfold Surroundings.find?
  simp only [Option.isSome_or, Bool.or_eq_true, isMethod]
  exact .inr (.inr (.inl inBody))

theorem Touches.fresh_le (touches : Touches around roles allowed place state after) :
    after.fresh ≤ state.fresh + 1 ∧ (after.fresh = state.fresh ∨
      around.declaresAt after.bodies place = false) := by
  induction touches with
  | refl => exact ⟨Nat.le_succ _, .inl rfl⟩
  | tail _ touch ih =>
    cases touch with
    | declare needed taken =>
      have settled : around.declaresAt _ place = false := ResolutionState.declare_settles taken
      obtain ⟨_, _, _, _, _, rfl⟩ := ResolutionState.declare_eq_some taken
      rcases ih.2 with same | done
      · exact ⟨by dsimp only; omega, .inr settled⟩
      · rw [done] at needed
        exact nomatch needed
    | _ => exact ih

theorem ResolutionState.declare_isSome (state : ResolutionState) (name : String)
    (inMethod : place.method?.isSome) :
    ∃ id after, state.declare place name = (some id, after) := by
  obtain ⟨method, found⟩ := Option.isSome_iff_exists.1 inMethod
  have isMethod := (Place.isMethod_of_method? found).2
  unfold declare
  cases shape : method.shape with
  | method decl => exact ⟨⟨state.fresh⟩, _, by simp only [found, Node.methodDecl?, shape]; rfl⟩
  | _ => simp [shape, Shape.isMethod] at isMethod

theorem Surroundings.sweepNode_name {text : String} (shape : place.node.shape = .name text)
    (final : Bool) :
    around.sweepNode final state place = around.judgeExpression final place state := by
  rw [sweepNode_eq]
  simp only [judge, inflows, fill, shape, Shape.isExpression, if_true, List.foldl_nil]

theorem Surroundings.name_of_declaresAt {bodies : Std.HashMap NodeId LocalScope}
    (needed : around.declaresAt bodies place) :
    (∃ text, place.node.shape = .name text) ∧ place.method?.isSome := by
  constructor
  · unfold declaresAt Node.nameText? at needed
    cases shape : place.node.shape with
    | name text => exact ⟨text, rfl⟩
    | _ => simp [shape, Shape.nameText?] at needed
  · unfold declaresAt at needed
    split at needed
    · exact (Bool.and_eq_true_iff.1 needed).2
    · simp at needed

theorem Surroundings.sweepNode_of_declares (needed : around.declaresAt state.bodies place)
    (final : Bool) : ∃ cache warnings id middle,
      { state with cache, warnings }.declare place (place.node.nameText?.getD "") =
        (some id, middle) ∧
      around.sweepNode final state place = around.noteJudgement place
        (.bound (.localVar id) (some (.deferred ⟨around.script, id⟩))) middle := by
  obtain ⟨⟨text, shape⟩, inMethod⟩ := name_of_declaresAt needed
  have declares : _ = around.declaresAt state.bodies place :=
    typed_declares final state.notes state.bodies state.cache
  rw [sweepNode_name shape]
  unfold judgeExpression
  revert declares
  generalize around.typed final state.notes state.bodies state.cache place = judged
  obtain ⟨typed, cache⟩ := judged
  intro declares
  dsimp only
  obtain ⟨id, middle, taken⟩ := ResolutionState.declare_isSome
    { state with cache, warnings := state.warnings ++ typed.warnings }
    (place.node.nameText?.getD "") inMethod
  refine ⟨cache, _, id, middle, taken, ?_⟩
  unfold declareFor
  rw [if_pos (declares.trans needed), taken]

namespace ResolutionState.Fits

theorem visit_settles (fits : state.Fits around roles) (final : Bool)
    (static : around.Fits roles bound) (older : bound ≤ state.fresh)
    (inside : place ∈ state.root.placesUp) :
    around.declaresAt (around.sweepNode final state place).bodies place = false := by
  cases needed : around.declaresAt state.bodies place with
  | false =>
    rw [((fits.visit_touches final static older inside).undeclared needed).1]
    exact needed
  | true =>
    obtain ⟨⟨text, shape⟩, _⟩ := Surroundings.name_of_declaresAt needed
    obtain ⟨cache, warnings, id, middle, taken, visited⟩ :=
      Surroundings.sweepNode_of_declares needed final
    have settled : around.declaresAt middle.bodies place = false := declare_settles taken
    have new : Role.Plain roles middle.fresh id := by
      obtain ⟨_, _, _, _, rfl, rfl⟩ := declare_eq_some taken
      exact ⟨fits.later _ (Nat.le_refl _), Nat.lt_succ_self _⟩
    have noted : Touches around roles (fun _ => True) place middle (around.noteJudgement place
        (.bound (.localVar id) (some (.deferred ⟨around.script, id⟩))) middle) := by
      refine Touches.note _ (fits.role_expression inside (by rw [shape]; rfl)) ?_ fun _ _ => trivial
      intro binding decl isNew aims
      obtain rfl := Option.some.inj isNew
      obtain rfl := Option.some.inj aims
      exact new
    rw [visited, (noted.undeclared settled).1]
    exact settled

theorem walk_fresh_le (fits : state.Fits around roles) (final : Bool)
    (static : around.Fits roles bound) (older : bound ≤ state.fresh) {places : List Place}
    (inside : ∀ place ∈ places, place ∈ state.root.placesUp) :
    (around.walk final places state).fresh ≤ state.fresh + places.length := by
  induction places generalizing state with
  | nil => exact Nat.le_refl _
  | cons first rest ih =>
    have here := inside first List.mem_cons_self
    obtain ⟨nextFits, evolves⟩ := fits.visit final static older here
    have touches := fits.visit_touches final static older here
    have later := ih nextFits (Nat.le_trans older evolves.fresh) (evolves.inside_rest inside)
    calc (around.walk final rest (around.sweepNode final state first)).fresh
        ≤ (around.sweepNode final state first).fresh + rest.length := later
      _ ≤ state.fresh + 1 + rest.length := Nat.add_le_add_right touches.fresh_le.1 _
      _ = state.fresh + (first :: rest).length := by
        rw [List.length_cons]
        omega

theorem walk_settles (fits : state.Fits around roles) (final : Bool)
    (static : around.Fits roles bound) (older : bound ≤ state.fresh) {places : List Place}
    (inside : ∀ place ∈ places, place ∈ state.root.placesUp) :
    ∀ place ∈ places, around.declaresAt (around.walk final places state).bodies place = false := by
  induction places generalizing state with
  | nil => simp
  | cons first rest ih =>
    have here := inside first List.mem_cons_self
    obtain ⟨nextFits, evolves⟩ := fits.visit final static older here
    have olderNext := Nat.le_trans older evolves.fresh
    have insideNext := evolves.inside_rest inside
    intro place listed
    rcases List.mem_cons.1 listed with rfl | later
    · have settled := fits.visit_settles final static older here
      exact Surroundings.declaresAt_mono
        (nextFits.walk final static olderNext insideNext).2.bodies settled
    · exact ih nextFits olderNext insideNext place later

end ResolutionState.Fits

namespace ResolutionState

def Declared (state : ResolutionState) (around : Surroundings) : Prop :=
  ∀ place ∈ state.root.placesUp, around.declaresAt state.bodies place = false

theorem Fits.sweep_declared (fits : state.Fits around roles) (final : Bool)
    (static : around.Fits roles bound) (older : bound ≤ state.fresh) :
    (around.sweep final state).Declared around := by
  have started := fits.record state.cache state.warnings state.obligations false
  have settled := started.walk_settles final static older fun _ listed => listed
  have swept := started.walk final static older fun _ listed => listed
  have unfolded : around.sweep final state =
      (around.walk final state.root.placesUp { state with changed := false }).settleImplicit := rfl
  rw [unfolded, settleImplicit_eq]
  generalize around.walk final state.root.placesUp { state with changed := false } = after
    at settled swept ⊢
  obtain ⟨afterFits, evolves⟩ := swept
  have sameRoot : after.root = state.root := evolves.root
  intro place listed
  have adds := declareIn_adds fun entry among => (afterFits.implicit entry among).2.2.1
  rcases adds.mem_placesUp_mapUp listed with ⟨old, placed, rfl⟩ | ⟨old, lies, leaf⟩
  · rw [Surroundings.declaresAt_mapUp_declareIn]
    exact settled old (sameRoot ▸ placed)
  · obtain ⟨entry, among, same, _⟩ := mem_leavesOf leaf
    have family := (afterFits.implicit entry among).2.2.2
    rw [same] at family
    unfold Surroundings.declaresAt Node.nameText?
    cases shape : place.node.shape with
    | name text => simp [shape, Shape.family, Shape.isExpression] at family
    | _ => rfl

theorem Declared.walk (declared : state.Declared around) (fits : state.Fits around roles)
    (final : Bool) (static : around.Fits roles bound) (older : bound ≤ state.fresh)
    {places : List Place} (inside : ∀ place ∈ places, place ∈ state.root.placesUp) :
    (around.walk final places state).bodies = state.bodies ∧
      (around.walk final places state).fresh = state.fresh ∧
      (around.walk final places state).implicit = state.implicit := by
  refine fits.walk_induction (motive := fun after => after.bodies = state.bodies ∧
    after.fresh = state.fresh ∧ after.implicit = state.implicit) final static older inside
    ⟨rfl, rfl, rfl⟩ ?_
  rintro before place beforeFits olderBefore sameRoot listed ⟨bodies, fresh, implicit⟩
  have here : place ∈ before.root.placesUp := sameRoot ▸ inside place listed
  have touches := beforeFits.visit_touches final static olderBefore here
  have unneeded : around.declaresAt before.bodies place = false := by
    rw [bodies]
    exact declared place (inside place listed)
  obtain ⟨bodies', fresh', implicit'⟩ := touches.undeclared unneeded
  exact ⟨bodies'.trans bodies, fresh'.trans fresh, implicit'.trans implicit⟩

/-- A sweep in which no name is declared keeps the tree. -/
theorem Declared.sweep (declared : state.Declared around) (fits : state.Fits around roles)
    (final : Bool) (static : around.Fits roles bound) (older : bound ≤ state.fresh)
    (none' : state.implicit = []) :
    around.sweep final state =
        around.walk final state.root.placesUp { state with changed := false } ∧
      (around.sweep final state).root = state.root ∧
      (around.sweep final state).bodies = state.bodies ∧
      (around.sweep final state).fresh = state.fresh := by
  have started := fits.record state.cache state.warnings state.obligations false
  have undeclared : ResolutionState.Declared { state with changed := false } around := declared
  obtain ⟨bodies, fresh, implicit⟩ :=
    undeclared.walk started final static older fun _ listed => listed
  have root := (started.walk final static older fun _ listed => listed).2.root
  have same : around.sweep final state =
      around.walk final state.root.placesUp { state with changed := false } :=
    settleImplicit_of_nil (implicit.trans none')
  rw [same]
  exact ⟨rfl, root, bodies, fresh⟩

end ResolutionState

end Declaring

end ScriptMigration
