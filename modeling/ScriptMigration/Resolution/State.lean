import ScriptMigration.Resolution.Typing
import Std.Data.HashSet

/-! How far the resolution of a script has come. -/
namespace ScriptMigration

/-- What a type has to have because of what its code uses. -/
inductive Obligation where
  /-- A reference to the type around it. -/
  | outer (type : NodeId)
  /-- The form of the script. -/
  | form (type : NodeId)
  /-- A value for arguments that are left out. -/
  | missing (type : NodeId)
  /-- The member is used from a nested type and has to be public. -/
  | promoted (member : NodeId)
deriving DecidableEq, Repr, Hashable

/-- A local variable that the script does not declare. -/
structure ImplicitLocal where
  /-- The block that it is declared in. -/
  block : NodeId
  decl : Node

structure ResolutionState where
  root : Node
  parents : ParentLinks
  notes : Notes
  bodies : Std.HashMap NodeId LocalScope
  cache : MemberMemo
  /-- A number above all identities in use. -/
  fresh : Nat
  /-- The variables declared in this sweep, the last one first. -/
  implicit : List ImplicitLocal := []
  obligations : Std.HashSet Obligation := {}
  warnings : List String := []
  /-- Whether this sweep found out anything. -/
  changed : Bool := false

namespace ResolutionState

def describe (state : ResolutionState) (id : NodeId) (descriptor : Descriptor) :
    ResolutionState :=
  if state.notes.descriptor? id == some descriptor then state
  else { state with notes := state.notes.describe id descriptor, changed := true }

def bind (state : ResolutionState) (id : NodeId) (binding : Binding) : ResolutionState :=
  if state.notes.binding? id == some binding then state
  else { state with notes := state.notes.bind id binding, changed := true }

def decide (state : ResolutionState) (id : NodeId) (mode : LogicalMode) : ResolutionState :=
  if state.notes.mode id == mode then state
  else { state with notes := state.notes.decide id mode, changed := true }

def oblige (state : ResolutionState) (obligation : Obligation) : ResolutionState :=
  { state with obligations := state.obligations.insert obligation }

/-- Declares a name that is assigned to as a local variable of the procedure around it. -/
def declare (state : ResolutionState) (place : Place) (name : String) :
    Option NodeId × ResolutionState :=
  match place.method? with
  | none => (none, state)
  | some method =>
    match method.methodDecl? with
    | none => (none, state)
    | some decl =>
      let id : NodeId := ⟨state.fresh⟩
      let node := Node.made id place.node.line (.localVar { name, origin := .implicit })
      let scope := state.bodies.getD method.id {}
      (some id, { state with
        parents := state.parents.link id decl.body.id
        fresh := state.fresh + 1
        implicit := ⟨decl.body.id, node⟩ :: state.implicit
        bodies := state.bodies.insert method.id (scope.addLocal name id)
        changed := true })

def declareIn (implicit : List ImplicitLocal) (node : Node) : Node :=
  match node.shape with
  | .block stmts =>
    match implicit.filter (·.block == node.id) with
    | [] => node
    | here => node.withShape (.block (here.map (·.decl) ++ stmts))
  | _ => node

/-- Puts the variables that were declared in the sweep into the tree. -/
def settleImplicit (state : ResolutionState) : ResolutionState :=
  match state.implicit with
  | [] => state
  | implicit => { state with root := state.root.mapUp (declareIn implicit), implicit := [] }

end ResolutionState

end ScriptMigration
