import ScriptMigration.Resolution.Declared
import ScriptMigration.Resolution.State

/-! One sweep over the tree of a script: every expression gets the type that its parts give it, and
what flows into a declaration without a declared type is joined to what is known of it. -/
namespace ScriptMigration.Surroundings

variable (around : Surroundings)

def flowType (decl : NodeId) (incoming : Descriptor) (state : ResolutionState) :
    ResolutionState :=
  if around.declared.contains decl then state
  else
    let lookup := around.lookup state.notes
    match incoming.follow lookup with
    | none => state
    | some incoming =>
      match state.notes.descriptor? decl with
      | some current => state.describe decl (current.merge lookup incoming)
      | none => if incoming == .missing then state else state.describe decl incoming

def flowNode (decl : NodeId) (value : Node) (state : ResolutionState) : ResolutionState :=
  match state.notes.descriptor? value.id with
  | some incoming => around.flowType decl incoming state
  | none => state

def flowDecl? (notes : Notes) (target : Node) : Option NodeId :=
  match notes.binding? target.id with
  | some (.localVar decl) | some (.param decl) | some (.returnValue decl) => some decl
  | some (.member decl) | some (.outer decl) =>
    if decl.script == around.script && around.nodes[decl.node]?.any (·.shape.isField) then
      some decl.node
    else none
  | _ => none

def flowTarget (target value : Node) (state : ResolutionState) : ResolutionState :=
  match around.flowDecl? state.notes target with
  | some decl => around.flowNode decl value state
  | none => state

def sweepForEach (item collection : Node) (state : ResolutionState) : ResolutionState :=
  match around.flowDecl? state.notes item, around.followed? state.notes collection.id with
  | some decl, some type => around.flowType decl type.element state
  | _, _ => state

def sweepRedim (target : Node) (bounds : List Node) (state : ResolutionState) : ResolutionState :=
  match around.flowDecl? state.notes target with
  | some decl =>
    around.flowType decl (Descriptor.object.withRank (max (bounds.length % 256) 1)) state
  | none => state

def plainParams (params : List Node) : List Node :=
  params.takeWhile fun param => param.paramDecl?.any (!·.marks.paramArray)

def isMissing (node : Node) : Bool :=
  match node.shape with
  | .missing => true
  | _ => false

def flowArguments (callee : Node) (args : List Node) (state : ResolutionState) :
    ResolutionState :=
  match state.notes.binding? callee.id with
  | some (.member decl) | some (.outer decl) =>
    if decl.script == around.script then
      match around.nodes[decl.node]?.bind Node.methodDecl? with
      | some method =>
        (((plainParams method.params).zip args).filter (!isMissing ·.2)).foldl
          (fun state (param, arg) => around.flowNode param.id arg state) state
      | none => state
    else state
  | _ => state

/-- What the types around a place owe because of what is bound there. -/
def obligationsOf (place : Place) : Binding → List Obligation
  | .form | .formMember _ => place.type?.toList.map fun type => .form type.id
  | .outer decl =>
    if decl.script == around.script then
      ((place.types.takeWhile fun type => !type.children.any (·.id == decl.node)).map fun type =>
        .outer type.id) ++ [.promoted decl.node]
    else []
  | _ => []

def sweepExpression (final : Bool) (place : Place) (state : ResolutionState) :
    ResolutionState :=
  let id := place.node.id
  let (typed, cache) := around.typed final state.notes state.bodies state.cache place
  let state := { state with cache, warnings := state.warnings ++ typed.warnings }
  let (typed, state) :=
    if typed.declares then
      match state.declare place (place.node.nameText?.getD "") with
      | (some decl, state) =>
        (Judgement.bound (.localVar decl) (some (.deferred ⟨around.script, decl⟩)), state)
      | (none, state) => (typed, state)
    else (typed, state)
  let state := typed.mode.elim state (state.decide id)
  let state := typed.binding.elim state fun binding =>
    ((around.obligationsOf place binding).foldl .oblige state).bind id binding
  let state :=
    if isMissing place.node then
      place.type?.elim state fun type => state.oblige (.missing type.id)
    else state
  let state := typed.descriptor.elim state (state.describe id)
  match place.node.shape with
  | .call _ callee args => around.flowArguments callee args state
  | _ => state

/-- In the last sweep a declaration of which nothing is known holds any object. -/
def defaultType (final : Bool) (id : NodeId) (state : ResolutionState) : ResolutionState :=
  if final && (state.notes.descriptor? id).isNone then state.describe id .object else state

def sweepDeclaration (final : Bool) (id : NodeId) (value : Option Node) (state : ResolutionState) :
    ResolutionState :=
  defaultType final id (value.elim state fun value => around.flowNode id value state)

/-- A property has the type of its getter, or else of the last parameter of a setter. -/
def sweepProperty (final : Bool) (id : NodeId) (decl : PropertyDecl Node)
    (state : ResolutionState) : ResolutionState :=
  let source :=
    match decl.getter with
    | some getter => some getter
    | none => ((decl.letter.or decl.setter).bind Node.methodDecl?).bind (·.params.getLast?)
  match source.bind (state.notes.descriptor? ·.id) with
  | some type => state.describe id ((type.follow (around.lookup state.notes)).getD type)
  | none => defaultType final id state

def sweepNode (final : Bool) (state : ResolutionState) (place : Place) : ResolutionState :=
  let node := place.node
  match node.shape with
  | .field decl | .localVar decl => around.sweepDeclaration final node.id decl.init state
  | .param decl => around.sweepDeclaration final node.id decl.default state
  | .method _ => defaultType final node.id state
  | .property decl => around.sweepProperty final node.id decl state
  | .assign _ target value => around.flowTarget target value state
  | .forRange counter first last _ _ =>
    around.flowTarget counter last (around.flowTarget counter first state)
  | .forEach item collection _ => around.sweepForEach item collection state
  | .redim _ target bounds => around.sweepRedim target bounds state
  | shape => if shape.isExpression then around.sweepExpression final place state else state

/-- A sweep over the whole tree, in which every node is visited after its parts. -/
def sweep (final : Bool) (state : ResolutionState) : ResolutionState :=
  let swept := state.root.placesUp.foldl (around.sweepNode final) { state with changed := false }
  swept.settleImplicit

end ScriptMigration.Surroundings
