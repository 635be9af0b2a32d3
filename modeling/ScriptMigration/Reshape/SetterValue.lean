import ScriptMigration.Draft.Basic

/-! Setters with one parameter take the assigned value by it. The target gives the value without a
parameter, so the parameter goes and what refers to it becomes the assigned value. -/
namespace ScriptMigration

namespace SetterValue

def valueParam? (decl : MethodDecl Node) : Option Node :=
  match decl.params with
  | [param] => if decl.kind.isSetter then some param else none
  | _ => none

def replace (name : String) (node : Node) : Node :=
  if node.nameText?.any (sameName · name) then node.withShape .assignedValue else node

def dropParam (node : Node) : Node :=
  match node.shape with
  | .method decl =>
    match (valueParam? decl).bind Node.declName? with
    | some name =>
      node.withShape (.method { decl with
        params := [], body := decl.body.mapInType (replace name) })
    | none => node
  | _ => node

def dropped? (place : Place) : Option Retired := do
  let decl ← place.node.methodDecl?
  let param ← valueParam? decl
  let owner ← place.type?
  return { owner := owner.id, node := param }

end SetterValue

open SetterValue in
/-- Drops the value parameters of all setters, and gives how many there were. -/
def Draft.dropValueParams (draft : Draft) : Draft × Nat :=
  let dropped := draft.root.places.filterMap dropped?
  ({ draft with
    root := draft.root.mapUp dropParam
    retired := draft.retired ++ dropped }, dropped.length)

end ScriptMigration
