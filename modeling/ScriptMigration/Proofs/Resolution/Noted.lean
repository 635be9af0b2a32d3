import ScriptMigration.Proofs.Resolution.Declaring
import ScriptMigration.Proofs.Resolution.Reading

/-! What a visit leaves in the notes. What is found out about a node is noted when the visit ends, and
a visit that finds out what is noted already changes nothing. -/
namespace ScriptMigration

/-- What is found out about a node is noted. -/
structure Judgement.Noted (typed : Judgement) (notes : Notes) (id : NodeId) : Prop where
  mode : ∀ mode, typed.mode = some mode → notes.mode id = mode
  binding : ∀ binding, typed.binding = some binding → notes.binding? id = some binding
  descriptor : ∀ descriptor, typed.descriptor = some descriptor →
    notes.descriptor? id == some descriptor

theorem Judgement.Noted.congr {typed : Judgement} {notes notes' : Notes} {id : NodeId}
    (noted : typed.Noted notes id) (mode : notes'.mode id = notes.mode id)
    (binding : notes'.binding? id = notes.binding? id)
    (descriptor : notes'.descriptor? id = notes.descriptor? id) : typed.Noted notes' id where
  mode found isMode := mode.trans (noted.mode found isMode)
  binding found isBinding := binding.trans (noted.binding found isBinding)
  descriptor found isDescriptor := descriptor ▸ noted.descriptor found isDescriptor

namespace ResolutionState

variable (state : ResolutionState) (id : NodeId)

theorem descriptor?_describe (descriptor : Descriptor) :
    (state.describe id descriptor).notes.descriptor? id == some descriptor := by
  rcases state.describe_cases id descriptor with ⟨same, kept⟩ | ⟨_, new⟩
  · rw [kept]
    exact same
  · rw [new]
    simp only [Notes.descriptor?_describe, if_true]
    exact Descriptor.beq_refl descriptor

theorem isSome_describe (descriptor : Descriptor) :
    ((state.describe id descriptor).notes.descriptor? id).isSome := by
  have same := state.descriptor?_describe id descriptor
  cases noted : (state.describe id descriptor).notes.descriptor? id with
  | none =>
    rw [noted] at same
    exact nomatch same
  | some other => rfl

theorem binding?_bind (binding : Binding) :
    (state.bind id binding).notes.binding? id = some binding := by
  rcases state.bind_cases id binding with ⟨same, kept⟩ | ⟨_, new⟩
  · rw [kept]
    exact same
  · rw [new]
    simp

theorem mode_decide (mode : LogicalMode) : (state.decide id mode).notes.mode id = mode := by
  rcases state.decide_cases id mode with ⟨same, kept⟩ | ⟨_, new⟩
  · rw [kept]
    exact same
  · rw [new]
    simp

theorem mode_bind (binding : Binding) (other : NodeId) :
    (state.bind id binding).notes.mode other = state.notes.mode other := by
  rcases state.bind_cases id binding with ⟨_, kept⟩ | ⟨_, new⟩
  · rw [kept]
  · rw [new]
    rfl

theorem mode_describe (descriptor : Descriptor) (other : NodeId) :
    (state.describe id descriptor).notes.mode other = state.notes.mode other := by
  rcases state.describe_cases id descriptor with ⟨_, kept⟩ | ⟨_, new⟩
  · rw [kept]
  · rw [new]
    rfl

theorem binding?_describe (descriptor : Descriptor) (other : NodeId) :
    (state.describe id descriptor).notes.binding? other = state.notes.binding? other := by
  rw [Notes.binding?, bindings_describe]
  rfl

end ResolutionState

namespace Surroundings

variable {around : Surroundings} {place : Place} {state : ResolutionState} {typed : Judgement}

theorem notes_foldl_oblige (state : ResolutionState) (obligations : List Obligation) :
    (obligations.foldl .oblige state).notes = state.notes ∧
      (obligations.foldl .oblige state).changed = state.changed := by
  rw [ResolutionState.foldl_oblige]
  exact ⟨rfl, rfl⟩

theorem notes_obligeMissing (place : Place) (state : ResolutionState) : (if isMissing place.node then
      place.type?.elim state fun type => state.oblige (.missing type.id) else state).notes =
        state.notes ∧
    (if isMissing place.node then
      place.type?.elim state fun type => state.oblige (.missing type.id) else state).changed =
        state.changed := by
  split
  · cases place.type? with
    | none => exact ⟨rfl, rfl⟩
    | some type => exact ⟨rfl, rfl⟩
  · exact ⟨rfl, rfl⟩

theorem noteJudgement_noted :
    typed.Noted (around.noteJudgement place typed state).notes place.node.id := by
  unfold noteJudgement
  dsimp only
  have decided : ∀ mode, typed.mode = some mode →
      (typed.mode.elim state (state.decide place.node.id)).notes.mode place.node.id = mode := by
    intro mode isMode
    rw [isMode]
    exact state.mode_decide place.node.id mode
  generalize typed.mode.elim state (state.decide place.node.id) = first at decided ⊢
  have bound : (∀ mode, typed.mode = some mode → (typed.binding.elim first fun binding =>
        ((around.obligationsOf place binding).foldl .oblige first).bind place.node.id
          binding).notes.mode place.node.id = mode) ∧
      ∀ binding, typed.binding = some binding → (typed.binding.elim first fun binding =>
        ((around.obligationsOf place binding).foldl .oblige first).bind place.node.id
          binding).notes.binding? place.node.id = some binding := by
    cases typed.binding with
    | none => exact ⟨decided, fun _ absurd => nomatch absurd⟩
    | some binding =>
      refine ⟨fun mode isMode => ?_, fun other isBinding => ?_⟩
      · rw [Option.elim_some, ResolutionState.mode_bind, (notes_foldl_oblige _ _).1]
        exact decided mode isMode
      · obtain rfl := Option.some.inj isBinding
        exact ResolutionState.binding?_bind _ _ _
  generalize (typed.binding.elim first fun binding =>
    ((around.obligationsOf place binding).foldl .oblige first).bind place.node.id binding) =
      second at bound ⊢
  have same : (if isMissing place.node then place.type?.elim second fun type =>
      second.oblige (.missing type.id) else second).notes = second.notes :=
    (notes_obligeMissing place second).1
  generalize (if isMissing place.node then place.type?.elim second fun type =>
    second.oblige (.missing type.id) else second) = third at same ⊢
  rw [← same] at bound
  cases found : typed.descriptor with
  | none =>
    refine ⟨bound.1, bound.2, fun other isDescriptor => ?_⟩
    rw [found] at isDescriptor
    exact nomatch isDescriptor
  | some descriptor =>
    refine ⟨fun mode isMode => ?_, fun binding isBinding => ?_, fun other isDescriptor => ?_⟩
    · rw [Option.elim_some, ResolutionState.mode_describe]
      exact bound.1 mode isMode
    · rw [Option.elim_some, ResolutionState.binding?_describe]
      exact bound.2 binding isBinding
    · obtain rfl := Option.some.inj (found.symm.trans isDescriptor)
      exact third.descriptor?_describe place.node.id descriptor

theorem noteJudgement_of_noted (noted : typed.Noted state.notes place.node.id) :
    (around.noteJudgement place typed state).changed = state.changed ∧
      (around.noteJudgement place typed state).notes = state.notes := by
  refine around.noteJudgement_induction (motive := fun after => after.changed = state.changed ∧
    after.notes = state.notes) ⟨rfl, rfl⟩ (fun mode before found same => ?_)
    (fun owed before same => ?_) (fun binding before found same => ?_)
    fun descriptor before found same => ?_
  · rcases before.decide_cases place.node.id mode with ⟨_, kept⟩ | ⟨differs, _⟩
    · rwa [kept]
    · rw [same.2] at differs
      exact absurd (noted.mode mode found) differs
  · have obliged := notes_foldl_oblige before owed
    exact ⟨obliged.2.trans same.1, obliged.1.trans same.2⟩
  · rcases before.bind_cases place.node.id binding with ⟨_, kept⟩ | ⟨differs, _⟩
    · rwa [kept]
    · rw [same.2] at differs
      exact absurd (noted.binding binding found) differs
  · rcases before.describe_cases place.node.id descriptor with ⟨_, kept⟩ | ⟨differs, _⟩
    · rwa [kept]
    · rw [same.2, noted.descriptor descriptor found] at differs
      exact nomatch differs

theorem judge_of_expression (expression : place.node.shape.isExpression) (final : Bool) :
    around.judge final place state = around.judgeExpression final place state := by
  unfold judge
  split
  · rename_i shape
    rw [shape] at expression
    exact nomatch expression
  · rw [if_pos expression]

theorem judge_of_property {decl : PropertyDecl Node} (shape : place.node.shape = .property decl)
    (final : Bool) :
    around.judge final place state = around.sweepProperty final place.node.id decl state := by
  unfold judge
  rw [shape]

theorem judgeExpression_of_undeclared (undeclared : around.declaresAt state.bodies place = false)
    (final : Bool) :
    around.judgeExpression final place state = around.noteJudgement place
      (around.typed final state.notes state.bodies state.cache place).1
      (around.recorded final place state) := by
  refine (around.judgeExpression_cases final place state).resolve_right ?_
  rintro ⟨needed, _⟩
  rw [undeclared] at needed
  exact nomatch needed

theorem sweepProperty_eq (final : Bool) (id : NodeId) (decl : PropertyDecl Node) :
    around.sweepProperty final id decl state =
      match decl.source?.bind (state.notes.descriptor? ·.id) with
      | some type => state.describe id ((type.follow (around.lookup state.notes)).getD type)
      | none => defaultType final id state := rfl

end Surroundings

def Notes.CopiedAt (notes : Notes) (place : Place) : Prop :=
  ∀ {decl : PropertyDecl Node} {source : Node} {type : Descriptor},
    place.node.shape = .property decl → decl.source? = some source →
      notes.descriptor? source.id = some type → notes.descriptor? place.node.id == some type

structure Surroundings.JudgedAt (around : Surroundings) (notes : Notes)
    (bodies : Std.HashMap NodeId LocalScope) (place : Place) : Prop where
  expression : place.node.shape.isExpression → ∀ cache : MemberMemo,
    cache.Faithful around.symbols →
      (around.typed false notes bodies cache place).1.Noted notes place.node.id
  property : notes.CopiedAt place

section Visit

variable {around : Surroundings} {roles : NodeId → Role} {state : ResolutionState} {place : Place}
  {bound : Nat}

namespace ResolutionState.Fits

theorem sweepProperty_of_source (fits : state.Fits around roles)
    (inside : place ∈ state.root.placesUp) {decl : PropertyDecl Node} {source : Node}
    {type : Descriptor} (shape : place.node.shape = .property decl)
    (isSource : decl.source? = some source)
    (noted : state.notes.descriptor? source.id = some type) (final : Bool) :
    around.sweepProperty final place.node.id decl state = state.describe place.node.id type := by
  have known : type.isDeferred = false := by
    refine fits.known noted ?_
    rw [fits.tree.source _ (Node.node_mem_of_mem_placesUp inside) decl source shape isSource]
    decide
  rw [Surroundings.sweepProperty_eq, isSource, Option.bind_some, noted]
  simp only [Descriptor.follow_of_known known, Option.getD_some]

theorem flow_evolves (fits : state.Fits around roles) (static : around.Fits roles bound)
    (older : bound ≤ state.fresh) {node : Node} (inside : node ∈ state.root.descendants)
    (final : Bool) :
    state.Evolves roles (fun _ => False) (Surroundings.fill final node
      ((around.inflows state.notes node).foldl around.pour state)) := by
  have touches (place : Place) : Touches around roles (fun _ => True) place state
      (Surroundings.fill final node ((around.inflows state.notes node).foldl around.pour state)) :=
    Touches.flow fits static older inside final
  exact Touches.elsewhere touches

theorem judge (fits : state.Fits around roles) (static : around.Fits roles bound)
    (inside : place ∈ state.root.placesUp) (final : Bool) :
    (around.judge final place state).Fits around roles ∧
      state.Evolves roles (· = place.node.id) (around.judge final place state) := by
  have touches : Touches around roles (fun _ => True) place state
      (around.judge final place state) :=
    Touches.judgeNode fits inside final (fun _ _ => trivial) trivial
  exact ⟨touches.fits static fits, touches.evolves⟩

theorem judge_evolves (fits : state.Fits around roles) (static : around.Fits roles bound)
    (older : bound ≤ state.fresh) (inside : place ∈ state.root.placesUp) (final : Bool) :
    (around.judge final place state).Evolves roles (fun _ => False)
      (around.sweepNode final state place) := by
  obtain ⟨judgedFits, evolves⟩ := fits.judge static inside final
  rw [Surroundings.sweepNode_eq]
  refine judgedFits.flow_evolves static (Nat.le_trans older evolves.fresh) ?_ final
  rw [evolves.root]
  exact Node.node_mem_of_mem_placesUp inside

theorem visit_noted (fits : state.Fits around roles) (static : around.Fits roles bound)
    (older : bound ≤ state.fresh) (inside : place ∈ state.root.placesUp) (final : Bool)
    (expression : place.node.shape.isExpression)
    (undeclared : around.declaresAt state.bodies place = false) :
    (around.typed final state.notes state.bodies state.cache place).1.Noted
      (around.sweepNode final state place).notes place.node.id := by
  have later := fits.judge_evolves static older inside final
  have role := fits.role_expression inside expression
  have noted : (around.typed final state.notes state.bodies state.cache place).1.Noted
      (around.judge final place state).notes place.node.id := by
    rw [Surroundings.judge_of_expression expression,
      Surroundings.judgeExpression_of_undeclared undeclared]
    exact Surroundings.noteJudgement_noted
  refine noted.congr (later.mode _ id) (later.binding _ id) (later.descriptor _ id ?_)
  rw [role]
  decide

theorem visit_property (fits : state.Fits around roles) (static : around.Fits roles bound)
    (older : bound ≤ state.fresh) (inside : place ∈ state.root.placesUp) (final : Bool)
    {decl : PropertyDecl Node} {source : Node} {type : Descriptor}
    (shape : place.node.shape = .property decl) (isSource : decl.source? = some source)
    (noted : state.notes.descriptor? source.id = some type) :
    (around.sweepNode final state place).notes.descriptor? place.node.id == some type := by
  have later := fits.judge_evolves static older inside final
  have role : roles place.node.id ≠ .other := by
    rw [fits.tree.role _ (Node.node_mem_of_mem_placesUp inside), shape]
    simp [Shape.family, Shape.Family.role]
  rw [later.descriptor _ id role, Surroundings.judge_of_property shape,
    fits.sweepProperty_of_source inside shape isSource noted]
  exact state.descriptor?_describe place.node.id type

theorem sweepProperty_of_copied (fits : state.Fits around roles)
    (inside : place ∈ state.root.placesUp) {decl : PropertyDecl Node}
    (shape : place.node.shape = .property decl) (copied : state.notes.CopiedAt place) :
    around.sweepProperty false place.node.id decl state = state := by
  cases found : decl.source?.bind (state.notes.descriptor? ·.id) with
  | none =>
    rw [Surroundings.sweepProperty_eq, found]
    rfl
  | some type =>
    obtain ⟨source, isSource, noted⟩ := Option.bind_eq_some_iff.1 found
    rw [fits.sweepProperty_of_source inside shape isSource noted]
    rcases state.describe_cases place.node.id type with ⟨_, kept⟩ | ⟨differs, _⟩
    · exact kept
    · rw [copied shape isSource noted] at differs
      exact nomatch differs

theorem judge_still (fits : state.Fits around roles) (inside : place ∈ state.root.placesUp)
    (undeclared : around.declaresAt state.bodies place = false)
    (faithful : state.cache.Faithful around.symbols)
    (judged : around.JudgedAt state.notes state.bodies place) :
    (around.judge false place state).changed = state.changed := by
  by_cases expression : place.node.shape.isExpression
  · rw [Surroundings.judge_of_expression expression,
      Surroundings.judgeExpression_of_undeclared undeclared]
    refine (Surroundings.noteJudgement_of_noted ?_).1
    exact judged.expression expression state.cache faithful
  · unfold Surroundings.judge
    split
    · rename_i decl shape
      rw [fits.sweepProperty_of_copied inside shape judged.property]
    · rw [if_neg expression]

end ResolutionState.Fits

end Visit

end ScriptMigration
