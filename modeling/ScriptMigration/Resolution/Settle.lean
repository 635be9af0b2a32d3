import ScriptMigration.Resolution.Sweep

/-! What is done after the last sweep: no deferred descriptor stays, types get the fields that their
code needs, and every member is public or private. -/
namespace ScriptMigration

namespace Shape

def isDeclaration {α : Type} : Shape α → Bool
  | .localVar _ | .param _ => true
  | shape => shape.isMember

end Shape

namespace Surroundings

variable (around : Surroundings)

/-- The descriptor that takes the place of one that stands for another declaration. Null and an
argument left out are no types of declarations. -/
def concrete (notes : Notes) (isDeclaration : Bool) : Descriptor → Descriptor
  | .deferred decl =>
    match (Descriptor.deferred decl).follow (around.lookup notes) with
    | some .missing | none => .object
    | some found => found
  | .null => if isDeclaration then .object else .null
  | .missing => if isDeclaration then .object else .missing
  | other => other

def withoutDeferred (nodes : Std.HashMap NodeId Node) (notes : Notes) : Notes :=
  { notes with
    descriptors := notes.descriptors.map fun id descriptor =>
      around.concrete notes (nodes[id]?.any (·.shape.isDeclaration)) descriptor }

/-- A field that a type has to have. -/
structure OwedField where
  name : String
  origin : Origin
  type : Descriptor

/-- The fields that a type owes by its marks, in order; `outer` is the type around it. -/
def owedFields (marks : TypeMarks) (outer : Option NodeId) : List OwedField :=
  let options := around.options
  (match marks.needsOuter, outer with
    | true, some outer =>
      [⟨options.outerFieldName, .outerRef,
        (around.declDescriptor? ⟨around.script, outer⟩).getD .object⟩]
    | _, _ => [])
  ++ (if marks.needsForm then
      [⟨options.formFieldName, .formField,
        (around.symbols.formType.map Descriptor.ofExternal).getD .object⟩]
    else [])
  ++ (if marks.needsMissing then [⟨options.missingFieldName, .missingValue, .object⟩] else [])

def missingFields (type : Node) (decl : TypeDecl Node) : List OwedField :=
  (around.owedFields decl.marks (around.types[type.id]?.bind (·.outer))).filter fun field =>
    !decl.members.any fun member => member.varDecl?.any (·.origin == field.origin)

end Surroundings

namespace Obligation

def markType (obligations : Std.HashSet Obligation) (id : NodeId) (marks : TypeMarks) : TypeMarks :=
  { marks with
    needsOuter := marks.needsOuter || obligations.contains (.outer id)
    needsForm := marks.needsForm || obligations.contains (.form id)
    needsMissing := marks.needsMissing || obligations.contains (.missing id) }

/-- A node with the marks for its obligations. What is used from a nested type is public. -/
def apply (obligations : Std.HashSet Obligation) (node : Node) : Node :=
  let promoted := obligations.contains (.promoted node.id)
  match node.shape with
  | .type decl =>
    node.withShape (.type { decl with marks := markType obligations node.id decl.marks })
  | .field decl =>
    if promoted then
      node.withShape (.field { decl with
        marks := { decl.marks with promoted := true }, visibility := .everyone })
    else node
  | .method decl =>
    if promoted then
      node.withShape (.method { decl with
        marks := { decl.marks with promoted := true }, visibility := .everyone })
    else node
  | .property decl =>
    if promoted then
      node.withShape (.property { decl with
        marks := { decl.marks with promoted := true }, visibility := .everyone })
    else node
  | _ => node

end Obligation

/-- A node whose visibility is decided. Fields are private unless a nested type uses them, and all
else is public. -/
def Node.withVisibility (node : Node) : Node :=
  match node.shape with
  | .type decl =>
    if decl.visibility.isDecided then node
    else node.withShape (.type { decl with visibility := .everyone })
  | .method decl =>
    if decl.visibility.isDecided then node
    else node.withShape (.method { decl with visibility := .everyone })
  | .property decl =>
    if decl.visibility.isDecided then node
    else node.withShape (.property { decl with visibility := .everyone })
  | .field decl =>
    if decl.visibility.isDecided then node
    else
      node.withShape (.field { decl with
        visibility := if decl.marks.promoted then .everyone else .owner })
  | _ => node

namespace Surroundings

variable (around : Surroundings)

def newFields (draft : Draft) (type : Node) : List (NodeId × OwedField) :=
  match type.typeDecl? with
  | some decl =>
    ((around.missingFields type decl).zipIdx 1).map fun (field, plane) =>
      (draft.newId plane type.id, field)
  | none => []

def payFields (draft : Draft) (node : Node) : Node :=
  match node.shape with
  | .type decl =>
    let fields := (around.newFields draft node).map fun (id, field) =>
      Node.made id node.line (.field {
        name := field.name, visibility := .owner, origin := field.origin
        marks := { synthesized := true } })
    node.withShape (.type { decl with members := fields ++ decl.members })
  | _ => node

def payObligations (draft : Draft) : Draft :=
  let types := draft.root.typesBelow
  let fields := types.flatMap (around.newFields draft)
  let parents := draft.parents.linkAll (types.flatMap fun type =>
    (around.newFields draft type).map fun (id, _) => (id, type.id))
  let notes := fields.foldl (fun notes (id, field) => notes.describe id field.type) draft.notes
  { draft with root := draft.root.mapUp (around.payFields draft), parents, notes }.withPlanes 3

end Surroundings

end ScriptMigration
