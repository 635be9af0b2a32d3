import ScriptMigration.Draft.Basic
import ScriptMigration.Text.Name

/-! A script gives back the value of a function by assigning to the function's name. Here the value
lives in a local variable and is returned. A function that never uses its name so returns the
default value of its type, and a setter that assigns to its value works on a copy of it. -/
namespace ScriptMigration

def Descriptor.startValue : Descriptor → Literal
  | .type { base, rank := 0, nullable := false } =>
    match base with
    | .primitive .bool => .bool false
    | .primitive .string => .str ""
    | .primitive .dateTime => .empty
    | .primitive kind =>
      if kind.isInteger then .int 0 else if kind.isFractional then .float ⟨0⟩ else .nothing
    | .external owner => if owner.isValueType then .empty else .nothing
    | .script .. => .nothing
  | _ => .nothing

def Node.assignTarget? (node : Node) : Option Node :=
  match node.shape with
  | .assign _ target _ => some target
  | .forRange counter .. => some counter
  | .forEach item .. => some item
  | _ => none

/-- How a procedure gives back its value. -/
inductive ReturnPlan where
  /-- By a local variable of the given name. -/
  | result (name : String) (type : Descriptor)
  /-- It gives back the default value of its type. -/
  | default (type : Descriptor)
  /-- It gives back nothing, and assigns to the value it is given if a type is named. -/
  | nothing (copied : Option Descriptor)

namespace ReturnValue

def copyName : String := "valueCopy"

def isAssignedValue (node : Node) : Bool :=
  match node.shape with
  | .assignedValue => true
  | _ => false

def isExit (node : Node) : Bool :=
  match node.shape with
  | .exit target => target.leavesProcedure
  | _ => false

def isReturn (node : Node) : Bool :=
  match node.shape with
  | .returnStmt _ => true
  | _ => false

/-- Whether a node stands for the value that the procedure gives back. -/
def isOwnName (notes : Notes) (method : NodeId) (node : Node) : Bool :=
  notes.binding? node.id == some (.returnValue method)

def takenNames (method : Node) : List FoldedName :=
  method.ownDescendants.filterMap fun node =>
    match node.shape with
    | .localVar decl => some (.of decl.name)
    | .param decl => some (.of decl.name)
    | _ => none

def copied? (notes : Notes) (decl : MethodDecl Node) : Option Descriptor :=
  let nodes := decl.body.ownDescendants
  if decl.kind.isSetter && nodes.any (·.assignTarget?.any isAssignedValue) then
    some ((((nodes.filter isAssignedValue).filterMap (notes.descriptor? ·.id)).head?).getD .object)
  else none

def plan (notes : Notes) (localName : String) (method : Node) (decl : MethodDecl Node) :
    ReturnPlan :=
  if decl.kind.returnsValue then
    let type := (notes.descriptor? method.id).getD .object
    if decl.body.ownDescendants.any (isOwnName notes method.id) then
      .result (freshName (takenNames method) localName) type
    else .default type
  else .nothing (copied? notes decl)

/-- The identities of the nodes that are made for one procedure. -/
structure NewIds where
  /-- The new local variable. -/
  carrier : NodeId
  /-- Its first value. -/
  initial : NodeId
  /-- The value that is given back at an exit. -/
  atExit : NodeId → NodeId
  /-- The return at the end. -/
  final : NodeId
  /-- The value that it gives back. -/
  finalValue : NodeId

def newIds (draft : Draft) (method : NodeId) : NewIds where
  carrier := draft.newId 1 method
  initial := draft.newId 2 method
  atExit := draft.newId 3
  final := draft.newId 4 method
  finalValue := draft.newId 5 method

/-- The declaration of a local variable that is not in the source. -/
def variableNode (ids : NewIds) (name : String) (origin : Origin) (line : Nat) (initial : Node) :
    Node :=
  .made ids.carrier line (.localVar {
    name, init := some initial, origin, marks := { synthesized := true } })

/-- A body in which nodes are replaced, with statements before and after. -/
def rebuilt (body : Node) (replace : Node → Node) (first : List Node)
    (last : List Node → List Node) : Node :=
  let body := body.mapInType replace
  body.withShape (.block (first ++ body.stmts ++ last body.stmts))

def body (notes : Notes) (ids : NewIds) (method : Node) (decl : MethodDecl Node) :
    ReturnPlan → Node
  | .result name type =>
    let body := decl.body
    let replace (node : Node) : Node :=
      if isOwnName notes method.id node then node.withShape (.name name)
      else if isExit node then
        node.withShape (.returnStmt (some (.made (ids.atExit node.id) body.line (.name name))))
      else node
    let initial := Node.made ids.initial method.line (.literal type.startValue)
    rebuilt body replace [variableNode ids name .returnValue body.line initial] fun stmts =>
      if stmts.getLast?.any isReturn then []
      else
        [.made ids.final body.lastLine
          (.returnStmt (some (.made ids.finalValue body.line (.name name))))]
  | .default type =>
    let value (id : NodeId) : Node := .made id method.line (.literal type.startValue)
    let replace (node : Node) : Node :=
      if isExit node then node.withShape (.returnStmt (some (value (ids.atExit node.id)))) else node
    rebuilt decl.body replace [] fun _ =>
      [.made ids.final decl.body.lastLine (.returnStmt (some (value ids.finalValue)))]
  | .nothing copied =>
    let replace (node : Node) : Node :=
      if isExit node then node.withShape (.returnStmt none)
      else if copied.isSome && isAssignedValue node then node.withShape (.name copyName)
      else node
    let first :=
      if copied.isSome then
        let initial := Node.made ids.initial decl.body.line .assignedValue
        [variableNode ids copyName .valueCopy decl.body.line initial]
      else []
    rebuilt decl.body replace first fun _ => []

def note (ids : NewIds) (method : NodeId) (decl : MethodDecl Node) (notes : Notes) :
    ReturnPlan → Notes
  | .result _ type =>
    let nodes := decl.body.ownDescendants
    let uses := (nodes.filter (isOwnName notes method)).map Node.id
      ++ (nodes.filter isExit).map (ids.atExit ·.id) ++ [ids.finalValue]
    uses.foldl (fun notes id => (notes.bind id (.localVar ids.carrier)).describe id type)
      ((notes.describe ids.carrier type).describe ids.initial type)
  | .default type =>
    let values := (decl.body.ownDescendants.filter isExit).map (ids.atExit ·.id)
    (values ++ [ids.finalValue]).foldl (fun notes id => notes.describe id type) notes
  | .nothing none => notes
  | .nothing (some type) =>
    let values := (decl.body.ownDescendants.filter isAssignedValue).map Node.id
    values.foldl (fun notes id => (notes.bind id (.localVar ids.carrier)).describe id type)
      ((notes.describe ids.carrier type).describe ids.initial type)

def variableLinks (ids : NewIds) (body : NodeId) : List (NodeId × NodeId) :=
  [(ids.carrier, body), (ids.initial, ids.carrier)]

def exitLinks (ids : NewIds) (body : Node) : List (NodeId × NodeId) :=
  (body.ownDescendants.filter isExit).map fun exit => (ids.atExit exit.id, exit.id)

def finalLinks (ids : NewIds) (body : NodeId) : List (NodeId × NodeId) :=
  [(ids.final, body), (ids.finalValue, ids.final)]

/-- The links of the nodes that a plan makes; `new` is what becomes of the body. -/
def links (ids : NewIds) (body new : Node) : ReturnPlan → List (NodeId × NodeId)
  | .result .. => variableLinks ids body.id ++ exitLinks ids body ++
      if new.stmts.getLast?.any (·.id == ids.final) then finalLinks ids body.id else []
  | .default _ => exitLinks ids body ++ finalLinks ids body.id
  | .nothing copied => if copied.isSome then variableLinks ids body.id else []

end ReturnValue

/-- How many procedures were changed in which way. -/
structure ReturnCounts where
  /-- Functions with a local variable for their value. -/
  results : Nat := 0
  /-- Functions that give back a default value. -/
  defaults : Nat := 0
  /-- Setters with a copy of their value. -/
  copies : Nat := 0
deriving DecidableEq, Repr

def ReturnCounts.add (counts : ReturnCounts) : ReturnPlan → ReturnCounts
  | .result .. => { counts with results := counts.results + 1 }
  | .default _ => { counts with defaults := counts.defaults + 1 }
  | .nothing (some _) => { counts with copies := counts.copies + 1 }
  | .nothing none => counts

/-- A procedure and how it gives back its value. -/
structure PlannedMethod where
  node : Node
  decl : MethodDecl Node
  plan : ReturnPlan

namespace Draft

def plannedMethods (draft : Draft) (localName : String) : List PlannedMethod :=
  draft.nodes.filterMap fun node =>
    node.methodDecl?.map fun decl =>
      { node, decl, plan := ReturnValue.plan draft.notes localName node decl }

/-- A procedure that gives back its value as planned; all other nodes stay. -/
def returnNode (draft : Draft) (localName : String) (node : Node) : Node :=
  match node.shape with
  | .method decl =>
    let plan := ReturnValue.plan draft.notes localName node decl
    node.withShape (.method { decl with
      body := ReturnValue.body draft.notes (ReturnValue.newIds draft node.id) node decl plan })
  | _ => node

def noteReturn (draft : Draft) (notes : Notes) (method : PlannedMethod) : Notes :=
  ReturnValue.note (ReturnValue.newIds draft method.node.id) method.node.id method.decl notes
    method.plan

def linkReturn (draft : Draft) (method : PlannedMethod) : List (NodeId × NodeId) :=
  let ids := ReturnValue.newIds draft method.node.id
  ReturnValue.links ids method.decl.body
    (ReturnValue.body draft.notes ids method.node method.decl method.plan) method.plan

/-- Makes all procedures give back their values by returning them. -/
def returnValues (draft : Draft) (localName : String) : Draft × ReturnCounts :=
  let methods := draft.plannedMethods localName
  ({ draft with
    root := draft.root.mapUp (draft.returnNode localName)
    parents := draft.parents.linkAll (methods.flatMap draft.linkReturn)
    notes := methods.foldl draft.noteReturn draft.notes }.withPlanes 5,
    methods.foldl (fun counts method => counts.add method.plan) {})

end Draft

end ScriptMigration
