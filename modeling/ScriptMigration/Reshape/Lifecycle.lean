import ScriptMigration.Draft.Basic

/-! The procedures that a script runs when an object comes or goes are known by their names. They
become the constructor and the destructor of their type; where the type has one, it takes their
statements at its end. -/
namespace ScriptMigration

namespace Lifecycle

def hookName? : MethodKind → Option String
  | .constructor => some "Class_Initialize"
  | .destructor => some "Class_Terminate"
  | _ => none

/-- Whether a member is a procedure without parameters that becomes one of the given kind. -/
def isHook (kind : MethodKind) (member : Node) : Bool :=
  member.methodDecl?.any fun decl =>
    decl.kind == .sub && decl.params.isEmpty && (hookName? kind).any (sameName · decl.name)

def hasKind (kind : MethodKind) (member : Node) : Bool := member.methodDecl?.any (·.kind == kind)

/-- The member that becomes or stays the only procedure of a kind. -/
def target? (kind : MethodKind) (members : List Node) : Option Node :=
  (members.find? (hasKind kind)).or (members.find? (isHook kind))

/-- The hooks of a kind that do not become the procedure of that kind themselves. -/
def mergedHooks (kind : MethodKind) (members : List Node) : List Node :=
  match target? kind members with
  | none => []
  | some target => members.filter fun member => isHook kind member && member.id != target.id

def bodyStmts (member : Node) : List Node :=
  match member.methodDecl? with
  | some decl => decl.body.stmts
  | none => []

/-- A procedure with further statements at its end; a hook becomes a procedure of the kind, with the
name of its type. -/
def extend (kind : MethodKind) (typeName : String) (stmts : List Node) (member : Node) : Node :=
  match member.methodDecl? with
  | none => member
  | some decl =>
    let body := decl.body.withShape (.block (decl.body.stmts ++ stmts))
    if isHook kind member then
      member.withShape (.method { decl with kind, name := typeName, body })
    else member.withShape (.method { decl with body })

/-- The members of a type with its hooks of one kind settled. -/
def settle (kind : MethodKind) (typeName : String) (members : List Node) : List Node :=
  match target? kind members with
  | none => members
  | some target =>
    let merged := mergedHooks kind members
    (members.filter fun member => !(isHook kind member && member.id != target.id)).map fun member =>
      if member.id == target.id then extend kind typeName (merged.flatMap bodyStmts) member
      else member

def emptied (member : Node) : Node :=
  match member.methodDecl? with
  | some decl =>
    member.withShape (.method { decl with body := decl.body.withShape (.block []) })
  | none => member

def kinds : List MethodKind := [.constructor, .destructor]

def settleNode (node : Node) : Node :=
  match node.shape with
  | .type decl =>
    node.withShape (.type { decl with
      members := kinds.foldl (fun members kind => settle kind decl.name members) decl.members })
  | _ => node

def dropped (type : Node) : List Retired :=
  match type.typeDecl? with
  | none => []
  | some decl => kinds.flatMap fun kind => (mergedHooks kind decl.members).map fun hook =>
      { owner := type.id, node := emptied hook }

def hookCount (type : Node) : Nat :=
  match type.typeDecl? with
  | none => 0
  | some decl => (kinds.map fun kind => decl.members.countP (isHook kind)).sum

def takers (type : Node) : List NodeId :=
  match type.typeDecl? with
  | none => []
  | some decl => kinds.flatMap fun kind =>
      if (mergedHooks kind decl.members).isEmpty then []
      else (target? kind decl.members).toList.map Node.id

def bodyLinks (taking : List NodeId) (type : Node) : List (NodeId × NodeId) :=
  (type.children.filter (taking.contains ·.id)).flatMap fun member =>
    match member.methodDecl? with
    | some decl => decl.body.links
    | none => []

end Lifecycle

open Lifecycle in
/-- Settles the hooks of all types, and gives how many there were. -/
def Draft.settleHooks (draft : Draft) : Draft × Nat :=
  let types := draft.root.typesBelow
  let root := draft.root.mapUp settleNode
  ({ draft with
    root
    parents := draft.parents.linkAll (root.typesBelow.flatMap (bodyLinks (types.flatMap takers)))
    retired := draft.retired ++ types.flatMap dropped }, (types.map hookCount).sum)

end ScriptMigration
