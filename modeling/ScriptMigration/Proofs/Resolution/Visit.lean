import ScriptMigration.Proofs.Descriptor.Merge
import ScriptMigration.Resolution.Sweep

/-! A visit taken apart. First something is found out about the node itself, then types flow from
there into declarations, and in the last sweep a declaration of which nothing is known is given a
type. -/
namespace ScriptMigration

namespace Notes

variable (notes : Notes) (id other : NodeId)

@[simp] theorem descriptor?_describe (descriptor : Descriptor) :
    (notes.describe id descriptor).descriptor? other =
      if id = other then some descriptor else notes.descriptor? other := by
  simp [descriptor?, describe, Std.HashMap.getElem?_insert]

@[simp] theorem binding?_describe (descriptor : Descriptor) :
    (notes.describe id descriptor).binding? other = notes.binding? other := rfl

@[simp] theorem mode_describe (descriptor : Descriptor) :
    (notes.describe id descriptor).mode other = notes.mode other := rfl

@[simp] theorem descriptor?_bind (binding : Binding) :
    (notes.bind id binding).descriptor? other = notes.descriptor? other := rfl

@[simp] theorem binding?_bind (binding : Binding) :
    (notes.bind id binding).binding? other =
      if id = other then some binding else notes.binding? other := by
  simp [binding?, bind, Std.HashMap.getElem?_insert]

@[simp] theorem mode_bind (binding : Binding) :
    (notes.bind id binding).mode other = notes.mode other := rfl

@[simp] theorem descriptor?_decide (mode : LogicalMode) :
    (notes.decide id mode).descriptor? other = notes.descriptor? other := rfl

@[simp] theorem binding?_decide (mode : LogicalMode) :
    (notes.decide id mode).binding? other = notes.binding? other := rfl

@[simp] theorem mode_decide (mode : LogicalMode) :
    (notes.decide id mode).mode other = if id = other then mode else notes.mode other := by
  simp only [Notes.mode, decide, Std.HashMap.getD_insert, beq_iff_eq]

end Notes

namespace ResolutionState

variable (state : ResolutionState) (id : NodeId)

/-- A descriptor is noted unless the same one is there. -/
theorem describe_cases (descriptor : Descriptor) :
    ((state.notes.descriptor? id == some descriptor) ∧ state.describe id descriptor = state) ∨
      ((state.notes.descriptor? id == some descriptor) = false ∧ state.describe id descriptor =
        { state with notes := state.notes.describe id descriptor, changed := true }) := by
  unfold describe
  split
  · rename_i same
    exact .inl ⟨same, rfl⟩
  · rename_i differs
    exact .inr ⟨by simpa using differs, rfl⟩

theorem bind_cases (binding : Binding) :
    (state.notes.binding? id = some binding ∧ state.bind id binding = state) ∨
      (state.notes.binding? id ≠ some binding ∧ state.bind id binding =
        { state with notes := state.notes.bind id binding, changed := true }) := by
  unfold bind
  split
  · rename_i same
    exact .inl ⟨by simpa using same, rfl⟩
  · rename_i differs
    exact .inr ⟨by simpa using differs, rfl⟩

theorem decide_cases (mode : LogicalMode) :
    (state.notes.mode id = mode ∧ state.decide id mode = state) ∨
      (state.notes.mode id ≠ mode ∧ state.decide id mode =
        { state with notes := state.notes.decide id mode, changed := true }) := by
  unfold decide
  split
  · rename_i same
    exact .inl ⟨by simpa using same, rfl⟩
  · rename_i differs
    exact .inr ⟨by simpa using differs, rfl⟩

@[simp] theorem bindings_describe (descriptor : Descriptor) :
    (state.describe id descriptor).notes.bindings = state.notes.bindings := by
  rcases state.describe_cases id descriptor with ⟨_, same⟩ | ⟨_, new⟩
  · rw [same]
  · rw [new]
    rfl

end ResolutionState

/-- Where a type that flows into a declaration comes from. -/
inductive FlowSource where
  | node (value : Node)
  /-- The elements of a collection. -/
  | element (collection : Node)
  | array (rank : Nat)

/-- A type that flows into a declaration. -/
structure Inflow where
  decl : NodeId
  source : FlowSource

namespace Surroundings

variable (around : Surroundings)

def sourceType? (notes : Notes) : FlowSource → Option Descriptor
  | .node value => notes.descriptor? value.id
  | .element collection => (around.followed? notes collection.id).map Descriptor.element
  | .array rank => some (Descriptor.object.withRank rank)

def flowed? (notes : Notes) (decl : NodeId) (incoming : Descriptor) : Option Descriptor :=
  if around.declared.contains decl then none
  else
    (incoming.follow (around.lookup notes)).bind fun incoming =>
      match notes.descriptor? decl with
      | some current => some (current.merge (around.lookup notes) incoming)
      | none => if incoming == .missing then none else some incoming

def inflow? (notes : Notes) (flow : Inflow) : Option Descriptor :=
  (around.sourceType? notes flow.source).bind (around.flowed? notes flow.decl)

def pour (state : ResolutionState) (flow : Inflow) : ResolutionState :=
  (around.inflow? state.notes flow).elim state (state.describe flow.decl)

def argumentFlows (notes : Notes) (callee : Node) (args : List Node) : List Inflow :=
  match notes.binding? callee.id with
  | some (.member decl) | some (.outer decl) =>
    if decl.script == around.script then
      match around.nodes[decl.node]?.bind Node.methodDecl? with
      | some method =>
        (((plainParams method.params).zip args).filter (!isMissing ·.2)).map fun (param, arg) =>
          ⟨param.id, .node arg⟩
      | none => []
    else []
  | _ => []

def inflows (notes : Notes) (node : Node) : List Inflow :=
  match node.shape with
  | .field decl | .localVar decl => decl.init.toList.map fun value => ⟨node.id, .node value⟩
  | .param decl => decl.default.toList.map fun value => ⟨node.id, .node value⟩
  | .assign _ target value =>
    (around.flowDecl? notes target).toList.map fun decl => ⟨decl, .node value⟩
  | .forRange counter first last _ _ =>
    (around.flowDecl? notes counter).toList.flatMap fun decl =>
      [⟨decl, .node first⟩, ⟨decl, .node last⟩]
  | .forEach item collection _ =>
    (around.flowDecl? notes item).toList.map fun decl => ⟨decl, .element collection⟩
  | .redim _ target bounds =>
    (around.flowDecl? notes target).toList.map fun decl =>
      ⟨decl, .array (max (bounds.length % 256) 1)⟩
  | .call _ callee args => around.argumentFlows notes callee args
  | _ => []

def noteJudgement (place : Place) (typed : Judgement) (state : ResolutionState) :
    ResolutionState :=
  let id := place.node.id
  let state := typed.mode.elim state (state.decide id)
  let state := typed.binding.elim state fun binding =>
    ((around.obligationsOf place binding).foldl .oblige state).bind id binding
  let state :=
    if isMissing place.node then
      place.type?.elim state fun type => state.oblige (.missing type.id)
    else state
  typed.descriptor.elim state (state.describe id)

def declareFor (place : Place) (typed : Judgement) (state : ResolutionState) :
    Judgement × ResolutionState :=
  if typed.declares then
    match state.declare place (place.node.nameText?.getD "") with
    | (some decl, state) =>
      (Judgement.bound (.localVar decl) (some (.deferred ⟨around.script, decl⟩)), state)
    | (none, state) => (typed, state)
  else (typed, state)

def judgeExpression (final : Bool) (place : Place) (state : ResolutionState) : ResolutionState :=
  let (typed, cache) := around.typed final state.notes state.bodies state.cache place
  let state := { state with cache, warnings := state.warnings ++ typed.warnings }
  let (typed, state) := around.declareFor place typed state
  around.noteJudgement place typed state

def judge (final : Bool) (place : Place) (state : ResolutionState) : ResolutionState :=
  match place.node.shape with
  | .property decl => around.sweepProperty final place.node.id decl state
  | shape => if shape.isExpression then around.judgeExpression final place state else state

def fill (final : Bool) (node : Node) (state : ResolutionState) : ResolutionState :=
  match node.shape with
  | .field _ | .localVar _ | .param _ | .method _ => defaultType final node.id state
  | _ => state

theorem noteJudgement_induction {motive : ResolutionState → Prop} {place : Place} {typed : Judgement}
    {state : ResolutionState} (start : motive state)
    (decide : ∀ mode before, typed.mode = some mode → motive before →
      motive (before.decide place.node.id mode))
    (oblige : ∀ (owed : List Obligation) before, motive before → motive (owed.foldl .oblige before))
    (bind : ∀ binding before, typed.binding = some binding → motive before →
      motive (before.bind place.node.id binding))
    (describe : ∀ descriptor before, typed.descriptor = some descriptor → motive before →
      motive (before.describe place.node.id descriptor)) :
    motive (around.noteJudgement place typed state) := by
  unfold noteJudgement
  dsimp only
  have decided : motive (typed.mode.elim state (state.decide place.node.id)) := by
    cases found : typed.mode with
    | none => exact start
    | some mode => exact decide mode state found start
  generalize typed.mode.elim state (state.decide place.node.id) = first at decided ⊢
  have bound : motive (typed.binding.elim first fun binding =>
      ((around.obligationsOf place binding).foldl .oblige first).bind place.node.id binding) := by
    cases found : typed.binding with
    | none => exact decided
    | some binding => exact bind binding _ found (oblige _ first decided)
  generalize (typed.binding.elim first fun binding =>
    ((around.obligationsOf place binding).foldl .oblige first).bind place.node.id binding) = second
    at bound ⊢
  have owed : motive (if isMissing place.node then
      place.type?.elim second fun type => second.oblige (.missing type.id) else second) := by
    split
    · cases place.type? with
      | none => exact bound
      | some type => exact oblige [.missing type.id] second bound
    · exact bound
  cases found : typed.descriptor with
  | none => exact owed
  | some descriptor => exact describe descriptor _ found owed

theorem flowType_eq (decl : NodeId) (incoming : Descriptor) (state : ResolutionState) :
    around.flowType decl incoming state =
      (around.flowed? state.notes decl incoming).elim state (state.describe decl) := by
  unfold flowType flowed?
  split
  · rfl
  · dsimp only
    cases incoming.follow (around.lookup state.notes) with
    | none => rfl
    | some incoming =>
      simp only [Option.bind_some]
      cases state.notes.descriptor? decl with
      | some current => rfl
      | none =>
        dsimp only
        split <;> rfl

theorem flowNode_eq (decl : NodeId) (value : Node) (state : ResolutionState) :
    around.flowNode decl value state = around.pour state ⟨decl, .node value⟩ := by
  simp only [flowNode, pour, inflow?, sourceType?]
  cases state.notes.descriptor? value.id with
  | none => rfl
  | some incoming => exact around.flowType_eq decl incoming state

@[simp] theorem bindings_pour (state : ResolutionState) (flow : Inflow) :
    (around.pour state flow).notes.bindings = state.notes.bindings := by
  unfold pour
  cases around.inflow? state.notes flow with
  | none => rfl
  | some descriptor => exact state.bindings_describe flow.decl descriptor

theorem flowDecl?_congr {notes notes' : Notes} (same : notes.bindings = notes'.bindings)
    (target : Node) : around.flowDecl? notes target = around.flowDecl? notes' target := by
  simp only [flowDecl?, Notes.binding?, same]

theorem flowTarget_eq (target value : Node) (state : ResolutionState) :
    around.flowTarget target value state =
      ((around.flowDecl? state.notes target).toList.map fun decl => ⟨decl, .node value⟩).foldl
        around.pour state := by
  unfold flowTarget
  cases around.flowDecl? state.notes target with
  | none => rfl
  | some decl => exact around.flowNode_eq decl value state

theorem argumentFlows_cases {notes : Notes} {callee : Node} {args : List Node} {flow : Inflow}
    (found : flow ∈ around.argumentFlows notes callee args) :
    ∃ (decl : DeclRef) (method : MethodDecl Node) (param arg : Node),
      around.nodes[decl.node]?.bind Node.methodDecl? = some method ∧
      (param, arg) ∈ (plainParams method.params).zip args ∧ flow = ⟨param.id, .node arg⟩ := by
  unfold argumentFlows at found
  split at found
  iterate 2
    · split at found
      · split at found
        · rename_i decl _ _ _ method known
          obtain ⟨⟨param, arg⟩, paired, rfl⟩ := List.mem_map.1 found
          exact ⟨decl, method, param, arg, known, (List.mem_filter.1 paired).1, rfl⟩
        · cases found
      · cases found
  · cases found

theorem flowArguments_eq (callee : Node) (args : List Node) (state : ResolutionState) :
    around.flowArguments callee args state =
      (around.argumentFlows state.notes callee args).foldl around.pour state := by
  have each (method : MethodDecl Node) :
      (((plainParams method.params).zip args).filter (!isMissing ·.2)).foldl
        (fun state (param, arg) => around.flowNode param.id arg state) state =
      ((((plainParams method.params).zip args).filter (!isMissing ·.2)).map fun (param, arg) =>
        (⟨param.id, .node arg⟩ : Inflow)).foldl around.pour state := by
    rw [List.foldl_map]
    congr 1
    funext state ⟨param, arg⟩
    exact around.flowNode_eq param.id arg state
  unfold flowArguments argumentFlows
  cases state.notes.binding? callee.id with
  | none => rfl
  | some binding =>
    cases binding with
    | member decl | outer decl =>
      dsimp only
      split
      · cases around.nodes[decl.node]?.bind Node.methodDecl? with
        | none => rfl
        | some method => exact each method
      · rfl
    | _ => rfl

theorem sweepExpression_eq (final : Bool) (place : Place) (state : ResolutionState) :
    around.sweepExpression final place state =
      match place.node.shape with
      | .call _ callee args =>
        around.flowArguments callee args (around.judgeExpression final place state)
      | _ => around.judgeExpression final place state := rfl

/-- A visit judges the node, lets types flow from it and fills what is left open. -/
theorem sweepNode_eq (final : Bool) (state : ResolutionState) (place : Place) :
    around.sweepNode final state place = fill final place.node
      ((around.inflows (around.judge final place state).notes place.node).foldl around.pour
        (around.judge final place state)) := by
  unfold sweepNode judge inflows fill
  dsimp only
  cases shape : place.node.shape with
  | field decl | localVar decl =>
    simp only [sweepDeclaration, Shape.isExpression, Bool.false_eq_true, if_false]
    cases decl.init with
    | none => rfl
    | some value => exact congrArg _ (around.flowNode_eq place.node.id value state)
  | param decl =>
    simp only [sweepDeclaration, Shape.isExpression, Bool.false_eq_true, if_false]
    cases decl.default with
    | none => rfl
    | some value => exact congrArg _ (around.flowNode_eq place.node.id value state)
  | assign isSet target value => exact around.flowTarget_eq target value state
  | forRange counter first last step body =>
    simp only [Shape.isExpression, Bool.false_eq_true, if_false]
    unfold flowTarget
    cases found : around.flowDecl? state.notes counter with
    | none => simp [found]
    | some decl =>
      have again := around.flowDecl?_congr
        (around.bindings_pour state ⟨decl, .node first⟩) counter
      simp only [flowNode_eq, again, found]
      rfl
  | forEach item collection body =>
    simp only [Shape.isExpression, Bool.false_eq_true, if_false, sweepForEach]
    cases around.flowDecl? state.notes item with
    | none => rfl
    | some decl =>
      simp only [Option.toList_some, List.map_cons, List.map_nil, List.foldl_cons, List.foldl_nil,
        pour, inflow?, sourceType?]
      cases around.followed? state.notes collection.id with
      | none => rfl
      | some type => exact around.flowType_eq decl type.element state
  | redim preserve target bounds =>
    simp only [Shape.isExpression, Bool.false_eq_true, if_false, sweepRedim]
    cases around.flowDecl? state.notes target with
    | none => rfl
    | some decl => exact around.flowType_eq decl _ state
  | call parens callee args =>
    simp only [Shape.isExpression, if_true, sweepExpression_eq, shape, flowArguments_eq]
  | literal | name | member | binary | unary | paren | new | missing | assignedValue
  | resource =>
    simp only [Shape.isExpression, if_true, sweepExpression_eq, shape, List.foldl_nil]
  | _ => rfl

end Surroundings

end ScriptMigration
