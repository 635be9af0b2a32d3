import ScriptMigration.Descriptor.Binding
import ScriptMigration.Descriptor.Merge
import ScriptMigration.Syntax.Walk
import Std.Data.HashMap

/-! Drafts: modules on their way to the target, with what is known of their nodes: the type of a node,
what a name stands for, and how a logical operator works. Notes are kept beside the tree under the
identities of its nodes. -/
namespace ScriptMigration

structure Notes where
  descriptors : Std.HashMap NodeId Descriptor := {}
  bindings : Std.HashMap NodeId Binding := {}
  /-- The logical operators that are decided. -/
  modes : Std.HashMap NodeId LogicalMode := {}

namespace Notes

def descriptor? (notes : Notes) (id : NodeId) : Option Descriptor := notes.descriptors[id]?

def binding? (notes : Notes) (id : NodeId) : Option Binding := notes.bindings[id]?

def mode (notes : Notes) (id : NodeId) : LogicalMode := notes.modes.getD id .undecided

def describe (notes : Notes) (id : NodeId) (descriptor : Descriptor) : Notes :=
  { notes with descriptors := notes.descriptors.insert id descriptor }

def bind (notes : Notes) (id : NodeId) (binding : Binding) : Notes :=
  { notes with bindings := notes.bindings.insert id binding }

def decide (notes : Notes) (id : NodeId) (mode : LogicalMode) : Notes :=
  { notes with modes := notes.modes.insert id mode }

end Notes

/-- A declaration that was taken out of the tree. A note may still name it. -/
structure Retired where
  /-- The type that declared it. -/
  owner : NodeId
  node : Node

structure Draft extends Module where
  notes : Notes := {}
  retired : List Retired := []

namespace Draft

def ofModule (module : Module) : Draft := { module with }

/-- The nodes that a note can name, by identity: those of the tree and the retired declarations. -/
def nodesById (draft : Draft) : Std.HashMap NodeId Node :=
  draft.root.descendants.foldl (fun table node => table.insert node.id node)
    (draft.retired.foldl (fun table entry => table.insert entry.node.id entry.node) {})

/-- An identity for a new node that is made for the node `source`. A step that makes up to `planes`
new nodes for one node gives them the numbers `plane = 1, …, planes`. -/
def newId (draft : Draft) (plane : Nat) (source : NodeId) : NodeId :=
  ⟨plane * draft.fresh + source.index⟩

/-- The draft after a step that made nodes with `newId` in the given number of planes. -/
def withPlanes (draft : Draft) (planes : Nat) : Draft :=
  { draft with fresh := (planes + 1) * draft.fresh }

end Draft

def Node.made (id : NodeId) (line : Nat) (shape : Shape Node) : Node :=
  .mk { id, line, lastLine := line } shape

end ScriptMigration
