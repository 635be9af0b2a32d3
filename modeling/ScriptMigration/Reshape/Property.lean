import ScriptMigration.Draft.Basic

/-! The accessors of a property are procedures of their own in a script. Here they are gathered into
one property, which stands where the first of them stood. A second accessor of one kind stays what
it is. -/
namespace ScriptMigration

namespace Property

def accessor? (member : Node) : Option (MethodDecl Node) :=
  member.methodDecl?.filter (·.kind.isAccessor)

def slot? (name : String) (kind : MethodKind) (members : List Node) : Option Node :=
  members.find? fun member =>
    (accessor? member).any fun decl => decl.kind == kind && sameName decl.name name

def isPlaced (name : String) (members : List Node) (member : Node) : Bool :=
  (accessor? member).any fun decl =>
    sameName decl.name name && (slot? name decl.kind members).any (·.id == member.id)

def gather (id : NodeId) (name : String) (members : List Node) : Node :=
  let placed := members.filter (isPlaced name members)
  let decls := placed.filterMap accessor?
  let line := ((placed.map Node.line).min?).getD 0
  .made id line (.property {
    name
    visibility := ((decls.map (·.visibility)).find? Visibility.isDecided).getD .undecided
    marks := { default := decls.any (·.marks.default) }
    getter := slot? name .propertyGet members
    letter := slot? name .propertyLet members
    setter := slot? name .propertySet members })

/-- The members of a type with their accessors gathered; `before` holds the names and kinds of the
accessors that came before. -/
def gatherAll (newId : NodeId → NodeId) (before : List (FoldedName × MethodKind)) :
    List Node → List Node
  | [] => []
  | member :: rest =>
    match accessor? member with
    | none => member :: gatherAll newId before rest
    | some decl =>
      let key := FoldedName.of decl.name
      if before.contains (key, decl.kind) then member :: gatherAll newId before rest
      else
        let later := gatherAll newId ((key, decl.kind) :: before) rest
        if before.any (·.1 == key) then later
        else gather (newId member.id) decl.name (member :: rest) :: later

def names (members : List Node) : List FoldedName :=
  ((members.filterMap accessor?).map fun decl => FoldedName.of decl.name).eraseDups

def gatherNode (newId : NodeId → NodeId) (node : Node) : Node :=
  match node.shape with
  | .type decl =>
    node.withShape (.type { decl with members := gatherAll newId [] decl.members })
  | _ => node

def madeLinks (fresh : Nat) (type : Node) : List (NodeId × NodeId) :=
  (type.children.filter (fresh ≤ ·.id.index)).flatMap fun property =>
    (property.id, type.id) :: property.links

end Property

open Property in
/-- Gathers the accessors of all types, and gives how many properties there are now. -/
def Draft.gatherAccessors (draft : Draft) : Draft × Nat :=
  let types := draft.root.typesBelow.filterMap Node.typeDecl?
  let root := draft.root.mapUp (gatherNode (draft.newId 1))
  let parents := draft.parents.linkAll (root.typesBelow.flatMap (madeLinks draft.fresh))
  ({ draft with root, parents }.withPlanes 1,
    (types.map fun decl => (names decl.members).length).sum)

end ScriptMigration
