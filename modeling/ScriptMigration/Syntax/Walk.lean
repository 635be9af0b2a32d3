import ScriptMigration.Syntax.Descent
import ScriptMigration.Syntax.Node
import Std.Data.HashMap

/-! Walking trees: the nodes below a node in either order, rebuilding a tree from its leaves up, and
the places of nodes, which know the nodes around them. A module is the tree of one script. -/
namespace ScriptMigration

/-- A sum is too large for the type of its summands. -/
inductive Overflow where
  | overflow
deriving DecidableEq, Repr

namespace Node

def size (node : Node) : Nat := 1 + (node.children.attach.map fun ⟨part, _⟩ => part.size).sum
termination_by node
decreasing_by exact sizeOf_lt_of_mem_children (by assumption)

theorem size_eq (node : Node) : node.size = 1 + (node.children.map size).sum := by
  rw [size]
  simp [List.map_subtype]

def descent : Descent Node where
  parts := children
  size := size
  shrinks node := by
    rw [node.size_eq]
    omega

def ownDescent : Descent Node where
  parts node := if node.shape.isType then [] else node.children
  size := size
  shrinks node := by
    rw [node.size_eq]
    split
    · rw [List.map_nil, List.sum_nil]
      omega
    · omega

def descendants (node : Node) : List Node := descent.before node

def postorder (node : Node) : List Node := descent.after node

/-- The node and all below it without what lies inside the types nested in it. The node itself is
entered also if it is a type. -/
def ownDescendants (node : Node) : List Node :=
  (ownDescent.down (Descent.push node.children.reverse []) #[node]).toList

/-- The tree with every node replaced by its image, the parts before the node they are part of. -/
def mapUp (f : Node → Node) (node : Node) : Node :=
  f (node.withShape (node.shape.mapParts fun part _ => part.mapUp f))
termination_by node
decreasing_by exact sizeOf_lt_of_mem_children (by assumption)

/-- The tree with every node replaced by its image up to the nested types, which stay. -/
def mapInType (f : Node → Node) (node : Node) : Node :=
  f (node.withShape (node.shape.mapParts fun part _ =>
    if part.shape.isType then part else part.mapInType f))
termination_by node
decreasing_by exact sizeOf_lt_of_mem_children (by assumption)

theorem descendants_eq (node : Node) :
    node.descendants = node :: node.children.flatMap descendants := descent.before_eq node

theorem postorder_eq (node : Node) :
    node.postorder = node.children.flatMap postorder ++ [node] := descent.after_eq node

theorem ownDescendants_eq (node : Node) : node.ownDescendants = node :: node.children.flatMap
    fun part => if part.shape.isType then [part] else part.ownDescendants := by
  have entered (node : Node) :
      node.ownDescendants = node :: node.children.flatMap ownDescent.before := by
    rw [ownDescendants, Descent.push_reverse, List.append_nil, Descent.toList_down]
    rfl
  have ahead (part : Node) : ownDescent.before part =
      if part.shape.isType then [part] else part.ownDescendants := by
    rw [Descent.before_eq, entered, ownDescent]
    dsimp only
    split <;> rfl
  rw [entered, funext ahead]

/-- The parts of the nodes of a tree, each with the node that it is a part of. -/
def links (node : Node) : List (NodeId × NodeId) :=
  node.descendants.flatMap fun owner => owner.children.map fun part => (part.id, owner.id)

def typesBelow (node : Node) : List Node := node.descendants.filter (·.shape.isType)

def stmts (node : Node) : List Node :=
  match node.shape with
  | .block stmts => stmts
  | _ => []

def typeDecl? (node : Node) : Option (TypeDecl Node) :=
  match node.shape with
  | .type decl => some decl
  | _ => none

def methodDecl? (node : Node) : Option (MethodDecl Node) :=
  match node.shape with
  | .method decl => some decl
  | _ => none

def varDecl? (node : Node) : Option (VarDecl Node) := node.shape.varDecl?

def paramDecl? (node : Node) : Option (ParamDecl Node) :=
  match node.shape with
  | .param decl => some decl
  | _ => none

def declName? (node : Node) : Option String := node.shape.declName?

def nameText? (node : Node) : Option String := node.shape.nameText?

/-- The length of a dimension whose greatest index is a literal. After the greatest integer there is
none, and the program stops. -/
def fixedLength? (bound : Node) : Except Overflow (Option Int64) :=
  match bound.shape with
  | .literal (.int upper) =>
    if upper < 0 then .ok none
    else if upper == .maxValue then .error .overflow
    else .ok (some (upper + 1))
  | _ => .ok none

def fixedLengths? : List Node → Except Overflow (Option (List Int64))
  | [] => .ok (some [])
  | bound :: rest =>
    match bound.fixedLength? with
    | .error fault => .error fault
    | .ok none => .ok none
    | .ok (some length) => (fixedLengths? rest).map (·.map (length :: ·))

end Node

def ArrayBounds.fixedLengths? (array : ArrayBounds Node) : Except Overflow (Option (List Int64)) :=
  if array.bounds.isEmpty then .ok none else Node.fixedLengths? array.bounds

/-- A node with the nodes around it, the innermost first. -/
structure Place where
  node : Node
  around : List Node

namespace Place

def parts (place : Place) : List Place :=
  place.node.children.map fun part => ⟨part, place.node :: place.around⟩

def descent : Descent Place where
  parts := parts
  size place := place.node.size
  shrinks place := by
    rw [parts, List.map_map, place.node.size_eq]
    exact Nat.lt_of_lt_of_eq (Nat.lt_succ_self _) (Nat.add_comm _ 1)

theorem descent_parts (around : List Node) (node : Node) :
    descent.parts ⟨node, around⟩ = node.children.map (⟨·, node :: around⟩) := rfl

/-- The places of a node and of all below it, in the order of `Node.descendants`. -/
def below (around : List Node) (node : Node) : List Place := descent.before ⟨node, around⟩

/-- The places of a node and of all below it, in the order of `Node.postorder`. -/
def belowUp (around : List Node) (node : Node) : List Place := descent.after ⟨node, around⟩

def parent? (place : Place) : Option Node := place.around.head?

def method? (place : Place) : Option Node :=
  (place.around.find? fun node => node.shape.isMethod || node.shape.isType).filter
    (·.shape.isMethod)

/-- The types around a node, the innermost first. -/
def types (place : Place) : List Node := place.around.filter (·.shape.isType)

def type? (place : Place) : Option Node := place.around.find? (·.shape.isType)

def withSubjectFrom (below : NodeId) : List Node → Option Node
  | [] => none
  | node :: around =>
    match node.shape with
    | .withStmt subject body =>
      if body.id == below then some subject else withSubjectFrom node.id around
    | .method _ | .type _ => none
    | _ => withSubjectFrom node.id around

def withSubject? (place : Place) : Option Node := withSubjectFrom place.node.id place.around

def isAssignTarget (place : Place) : Bool :=
  match place.parent?.map Node.shape with
  | some (.assign _ target _) => target.id == place.node.id
  | some (.forRange counter ..) => counter.id == place.node.id
  | some (.forEach item ..) => item.id == place.node.id
  | _ => false

end Place

def Node.places (root : Node) : List Place := Place.below [] root

/-- The places of all nodes of a tree, each after those of its parts. -/
def Node.placesUp (root : Node) : List Place := Place.belowUp [] root

/-- The parents of nodes, which are noted beside the tree. Whatever moves a node or makes one has to note its
parent too. -/
structure ParentLinks where
  parents : Std.HashMap NodeId NodeId := {}

namespace ParentLinks

def parent? (links : ParentLinks) (id : NodeId) : Option NodeId := links.parents[id]?

def link (links : ParentLinks) (part owner : NodeId) : ParentLinks :=
  { parents := links.parents.insert part owner }

def linkAll (links : ParentLinks) (pairs : List (NodeId × NodeId)) : ParentLinks :=
  pairs.foldl (fun links (part, owner) => links.link part owner) links

def relink (links : ParentLinks) (node : Node) : ParentLinks := links.linkAll node.links

/-- The nodes around a node, going up from parent to parent. -/
def around (links : ParentLinks) (nodes : Std.HashMap NodeId Node) : (bound : Nat) → NodeId → List Node
  | 0, _ => []
  | bound + 1, id =>
    match (links.parent? id).bind (nodes[·]?) with
    | some parent => parent :: links.around nodes bound parent.id
    | none => []

end ParentLinks

/-- The tree of one script. -/
structure Module where
  /-- The name of the script, and of the type made for it if it is not one class. -/
  name : String
  /-- Whether every variable has to be declared. -/
  explicit : Bool
  /-- The root type. -/
  root : Node
  parents : ParentLinks
  /-- A number above all identities in use. -/
  fresh : Nat

namespace Module

/-- All nodes reachable from the root, each before its parts. -/
def nodes (module : Module) : List Node := module.root.descendants

def linkedPlaces (module : Module) : List Place :=
  let nodes := module.nodes.foldl (fun table node => table.insert node.id node) {}
  module.nodes.map fun node => ⟨node, module.parents.around nodes module.nodes.length node.id⟩

end Module

end ScriptMigration
