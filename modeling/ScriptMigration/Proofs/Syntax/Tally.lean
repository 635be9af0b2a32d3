import Mathlib.Algebra.Order.BigOperators.Group.List
import Mathlib.Algebra.Order.Group.Nat
import ScriptMigration.Proofs.Syntax.Regular

/-! Counting the nodes of a tree that have an identity. What a map of nodes adds to or takes from the
count at every node, it adds to or takes from the count of the whole tree. -/
namespace ScriptMigration

theorem sum_ite_eq_countP {α : Type} (q : α → Bool) (items : List α) :
    (items.map fun item => if q item then 1 else 0).sum = items.countP q := by
  induction items with
  | nil => rfl
  | cons item rest ih =>
    rw [List.map_cons, List.sum_cons, List.countP_cons, ih, Nat.add_comm]

namespace Node

variable {p : Node → Bool} {id : NodeId} {f : Node → Node}

def tally (p : Node → Bool) (id : NodeId) (node : Node) : Nat :=
  node.descendants.countP fun below => p below && below.id == id

def counts (p : Node → Bool) (id : NodeId) (node : Node) : Nat :=
  if p node && node.id == id then 1 else 0

theorem tally_eq (p : Node → Bool) (id : NodeId) (node : Node) :
    node.tally p id = node.counts p id + (node.children.map (tally p id)).sum := by
  rw [tally, descendants_eq, List.countP_cons, List.countP_flatMap, Nat.add_comm]
  rfl

theorem counts_le_tally (p : Node → Bool) (id : NodeId) (node : Node) :
    node.counts p id ≤ node.tally p id := by
  rw [tally_eq]
  omega

theorem sum_tally (p : Node → Bool) (id : NodeId) (nodes : List Node) :
    (nodes.map (tally p id)).sum =
      (nodes.flatMap descendants).countP fun below => p below && below.id == id := by
  rw [List.countP_flatMap]
  rfl

theorem tally_withParts (g : Node → Node) (node : Node) : (node.withParts g).tally p id =
    (node.withParts g).counts p id + (node.children.map fun part => (g part).tally p id).sum := by
  rw [tally_eq, children_withParts, List.map_map]
  rfl

theorem tally_eq_count (id : NodeId) (node : Node) :
    node.tally (fun _ => true) id = (node.descendants.map Node.id).count id := by
  rw [tally, List.count, List.countP_map]
  rfl

theorem tally_le_count (p : Node → Bool) (id : NodeId) (node : Node) :
    node.tally p id ≤ (node.descendants.map Node.id).count id := by
  rw [← tally_eq_count]
  exact List.countP_mono_left fun below _ counted => by simp_all

/-- What is summed up over the nodes of a tree is summed up over the root and the trees of its
parts. -/
theorem sum_descendants (g : Node → Nat) (node : Node) : (node.descendants.map g).sum =
    g node + (node.children.map fun part => (part.descendants.map g).sum).sum := by
  rw [descendants_eq, List.map_cons, List.sum_cons, List.flatMap_def, List.map_flatten,
    List.sum_flatten, List.map_map, List.map_map]
  rfl

theorem tally_mapUp (f : Node → Node) (lost gained : Node → Nat)
    (same : ∀ old : Node, (old.rebuilt f).counts p id = old.counts p id) {root : Node}
    (step : ∀ old ∈ root.descendants,
      (f (old.rebuilt f)).tally p id + lost (old.rebuilt f) ≤
        (old.rebuilt f).tally p id + gained (old.rebuilt f)) :
    (root.mapUp f).tally p id + (root.descendants.map fun old => lost (old.rebuilt f)).sum ≤
      root.tally p id + (root.descendants.map fun old => gained (old.rebuilt f)).sum := by
  induction root using Node.induction with
  | step root ih =>
    have here := step root root.mem_descendants_self
    have parts : (root.children.map fun part => (part.mapUp f).tally p id).sum +
        (root.children.map fun part =>
          (part.descendants.map fun old => lost (old.rebuilt f)).sum).sum ≤
        (root.children.map (tally p id)).sum + (root.children.map fun part =>
          (part.descendants.map fun old => gained (old.rebuilt f)).sum).sum := by
      rw [← List.sum_map_add, ← List.sum_map_add]
      exact List.sum_le_sum fun part inside => ih part inside fun old lies =>
        step old (mem_descendants_of_child inside lies)
    have whole : (root.rebuilt f).tally p id = root.counts p id +
        (root.children.map fun part => (part.mapUp f).tally p id).sum := by
      rw [← same root]
      exact tally_withParts ..
    rw [mapUp_eq, tally_eq p id root, sum_descendants, sum_descendants]
    omega

theorem sum_ownDescendants (g : Node → Nat) (node : Node) : (node.ownDescendants.map g).sum =
    g node + (node.children.map fun part =>
      if part.shape.isType then g part else (part.ownDescendants.map g).sum).sum := by
  rw [ownDescendants_eq, List.map_cons, List.sum_cons, List.flatMap_def, List.map_flatten, List.sum_flatten,
    List.map_map, List.map_map]
  congr 2
  refine List.map_congr_left fun part _ => ?_
  simp only [Function.comp_apply]
  split <;> simp

theorem tally_mapInType (f : Node → Node) (lost gained : Node → Nat)
    (same : ∀ (g : Node → Node) (old : Node), (old.withParts g).counts p id = old.counts p id)
    (sameLost : ∀ (g : Node → Node) (old : Node), lost (old.withParts g) = lost old)
    (sameGained : ∀ (g : Node → Node) (old : Node), gained (old.withParts g) = gained old)
    (types : ∀ node : Node, node.shape.isType → lost node = 0)
    (step : ∀ node : Node, (f node).tally p id + lost node ≤ node.tally p id + gained node)
    (root : Node) :
    (root.mapInType f).tally p id + (root.ownDescendants.map lost).sum ≤
      root.tally p id + (root.ownDescendants.map gained).sum := by
  induction root using Node.induction with
  | step root ih =>
    have here := step (root.withParts (partInType f))
    have parts : (root.children.map fun part => (partInType f part).tally p id).sum +
        (root.children.map fun part => if part.shape.isType then lost part else
          (part.ownDescendants.map lost).sum).sum ≤
        (root.children.map (tally p id)).sum + (root.children.map fun part =>
          if part.shape.isType then gained part else (part.ownDescendants.map gained).sum).sum := by
      rw [← List.sum_map_add, ← List.sum_map_add]
      refine List.sum_le_sum fun part inside => ?_
      unfold partInType
      split
      · rename_i isType
        have none := types part isType
        omega
      · exact ih part inside
    have whole : (root.withParts (partInType f)).tally p id = root.counts p id +
        (root.children.map fun part => (partInType f part).tally p id).sum := by
      rw [← same (partInType f) root]
      exact tally_withParts ..
    rw [sameLost, sameGained] at here
    rw [mapInType_eq, tally_eq p id root, sum_ownDescendants, sum_ownDescendants]
    omega

end Node

end ScriptMigration
