import ScriptMigration.Syntax.Parts
import ScriptMigration.Token.Kind

/-! Syntax trees. A node is an identity, its lines and its comments with a shape over nodes.

The identity is unique in its module, and bindings and descriptors refer to a node by it. The parts
of a node are its `children`, in source order, and every recursion over trees goes through them. -/
namespace ScriptMigration

/-- The identity of a node in its module. -/
structure NodeId where
  index : Nat
deriving DecidableEq, Repr, Hashable, Inhabited

def NodeId.render (id : NodeId) : String := s!"#{id.index}"

/-- What a node carries beside its shape. -/
structure NodeInfo where
  id : NodeId
  line : Nat
  lastLine : Nat
  comments : List Comment := []
deriving Repr, Inhabited

inductive Node where
  | mk (info : NodeInfo) (shape : Shape Node)

namespace Node

def info : Node → NodeInfo
  | mk info _ => info

def shape : Node → Shape Node
  | mk _ shape => shape

def id (node : Node) : NodeId := node.info.id

def line (node : Node) : Nat := node.info.line

def lastLine (node : Node) : Nat := node.info.lastLine

def children (node : Node) : List Node := node.shape.children

def withShape (node : Node) (shape : Shape Node) : Node := mk node.info shape

def withInfo (node : Node) (info : NodeInfo) : Node := mk info node.shape

theorem sizeOf_lt_of_mem_children {part node : Node} (inside : part ∈ node.children) :
    sizeOf part < sizeOf node := by
  rcases node with ⟨info, shape⟩
  have smaller : sizeOf part < sizeOf shape := Shape.sizeOf_lt_of_mem_children inside
  simp
  omega

/-- Whether a property of all parts carries over to the node decides it for every node. -/
theorem induction {motive : Node → Prop}
    (step : ∀ node, (∀ part ∈ node.children, motive part) → motive node) (node : Node) :
    motive node :=
  step node fun part _ => induction step part
termination_by node
decreasing_by exact sizeOf_lt_of_mem_children (by assumption)

end Node

end ScriptMigration
