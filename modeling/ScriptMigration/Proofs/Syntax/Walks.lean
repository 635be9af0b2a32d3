import Mathlib.Data.List.Flatten
import Mathlib.Data.List.Nodup
import Mathlib.Data.List.Perm.Basic
import ScriptMigration.Proofs.Syntax.Places

/-! What the walks over a tree list, and in which order. A way down from a node is a list of numbers,
each of which picks a part. Ways know nothing of the stacks of the walks: a tree is well-formed where
no identity stands at the end of two ways, and the walks are compared to what the ways reach. -/
namespace ScriptMigration

namespace Node

def at? (node : Node) : List Nat → Option Node
  | [] => some node
  | index :: way => node.children[index]?.bind (at? · way)

def Contains (node below : Node) : Prop := ∃ way, node.at? way = some below

def ContainsBelow (node below : Node) : Prop := ∃ index way, node.at? (index :: way) = some below

def WellFormed (root : Node) : Prop :=
  ∀ way way' node node', root.at? way = some node → root.at? way' = some node' →
    node.id = node'.id → way = way'

def preorder (node : Node) : List Node :=
  node :: node.children.attach.flatMap fun ⟨part, _⟩ => part.preorder
termination_by node
decreasing_by exact sizeOf_lt_of_mem_children (by assumption)

theorem preorder_eq (node : Node) : node.preorder = node :: node.children.flatMap preorder := by
  rw [preorder]
  simp [List.flatMap_subtype]

def Hides (node below : Node) : Prop :=
  ∃ type, node.ContainsBelow type ∧ type.shape.isType ∧ type.ContainsBelow below

section Ways

variable {root node outer below part : Node} {way way' : List Nat} {index : Nat}

theorem at?_cons : node.at? (index :: way) = node.children[index]?.bind (at? · way) := rfl

theorem at?_append : node.at? (way ++ way') = (node.at? way).bind (at? · way') := by
  induction way generalizing node with
  | nil => rfl
  | cons index way ih =>
    rw [List.cons_append, at?_cons, at?_cons, Option.bind_assoc]
    simp only [ih]

theorem exists_part_of_at? (reached : node.at? (index :: way) = some below) :
    ∃ part, node.children[index]? = some part ∧ part.at? way = some below :=
  Option.bind_eq_some_iff.1 reached

theorem at?_of_part (isPart : node.children[index]? = some part) :
    node.at? (index :: way) = part.at? way := by
  rw [at?_cons, isPart, Option.bind_some]

theorem Contains.self (node : Node) : node.Contains node := ⟨[], rfl⟩

theorem Contains.trans (first : root.Contains node) (second : node.Contains below) :
    root.Contains below := by
  obtain ⟨way, reached⟩ := first
  obtain ⟨way', reached'⟩ := second
  exact ⟨way ++ way', by rw [at?_append, reached, Option.bind_some, reached']⟩

theorem containsBelow_iff :
    node.ContainsBelow below ↔ ∃ part ∈ node.children, part.Contains below := by
  constructor
  · rintro ⟨index, way, reached⟩
    obtain ⟨part, isPart, reached⟩ := exists_part_of_at? reached
    exact ⟨part, List.mem_of_getElem? isPart, way, reached⟩
  · rintro ⟨part, inside, way, reached⟩
    obtain ⟨index, isPart⟩ := List.mem_iff_getElem?.1 inside
    exact ⟨index, way, (at?_of_part isPart).trans reached⟩

theorem ContainsBelow.of_part (isPart : part ∈ node.children) : node.ContainsBelow part :=
  containsBelow_iff.2 ⟨part, isPart, .self part⟩

theorem ContainsBelow.contains (lies : node.ContainsBelow below) : node.Contains below := by
  obtain ⟨index, way, reached⟩ := lies
  exact ⟨index :: way, reached⟩

theorem contains_cases (lies : node.Contains below) : below = node ∨ node.ContainsBelow below := by
  obtain ⟨way, reached⟩ := lies
  cases way with
  | nil => exact .inl (Option.some.inj reached).symm
  | cons index way => exact .inr ⟨index, way, reached⟩

theorem mem_walk_iff {walk : Node → List Node}
    (unfolds : ∀ node below, below ∈ walk node ↔ below = node ∨ ∃ part ∈ node.children, below ∈ walk part)
    (node below : Node) : below ∈ walk node ↔ node.Contains below := by
  induction node using Node.induction with
  | step node ih =>
    rw [unfolds]
    constructor
    · rintro (rfl | ⟨part, inside, listed⟩)
      · exact .self below
      · exact (containsBelow_iff.2 ⟨part, inside, (ih part inside).1 listed⟩).contains
    · intro lies
      refine (contains_cases lies).imp_right fun lies => ?_
      obtain ⟨part, inside, lies⟩ := containsBelow_iff.1 lies
      exact ⟨part, inside, (ih part inside).2 lies⟩

theorem mem_descendants_iff : below ∈ node.descendants ↔ node.Contains below :=
  mem_walk_iff (fun node below => by rw [descendants_eq, List.mem_cons, List.mem_flatMap]) node below

theorem mem_postorder_iff : below ∈ node.postorder ↔ node.Contains below :=
  mem_walk_iff (fun node below => by
    rw [postorder_eq, List.mem_append, List.mem_flatMap, List.mem_singleton, or_comm]) node below

end Ways

namespace WellFormed

variable {root node : Node}

theorem inside (wellFormed : root.WellFormed) (lies : root.Contains node) : node.WellFormed := by
  obtain ⟨down, reached⟩ := lies
  have behind (way : List Nat) : root.at? (down ++ way) = node.at? way := by
    rw [at?_append, reached, Option.bind_some]
  intro way way' below below' first second same
  exact List.append_cancel_left (wellFormed _ _ _ _ ((behind way).trans first)
    ((behind way').trans second) same)

theorem child (wellFormed : root.WellFormed) {part : Node} (isPart : part ∈ root.children) :
    part.WellFormed :=
  wellFormed.inside (ContainsBelow.of_part isPart).contains

theorem distinct (wellFormed : root.WellFormed) : root.Distinct := by
  induction root using Node.induction with
  | step root ih =>
    unfold Distinct
    rw [descendants_eq, List.map_cons, List.nodup_cons, List.map_flatMap, List.nodup_flatMap]
    refine ⟨fun listed => ?_, fun part isPart => ih part isPart (wellFormed.child isPart), ?_⟩
    · obtain ⟨part, isPart, listed⟩ := List.mem_flatMap.1 listed
      obtain ⟨below, listed, same⟩ := List.mem_map.1 listed
      obtain ⟨index, way, reached⟩ :=
        containsBelow_iff.2 ⟨part, isPart, mem_descendants_iff.1 listed⟩
      cases wellFormed _ [] _ _ reached rfl same
    · refine List.pairwise_iff_getElem.2 fun early late inFirst inSecond before => ?_
      intro id listed listed'
      obtain ⟨below, among, rfl⟩ := List.mem_map.1 listed
      obtain ⟨below', among', same⟩ := List.mem_map.1 listed'
      obtain ⟨way, reached⟩ := mem_descendants_iff.1 among
      obtain ⟨way', reached'⟩ := mem_descendants_iff.1 among'
      have one := wellFormed (early :: way) (late :: way') below below'
        ((at?_of_part (List.getElem?_eq_getElem inFirst)).trans reached)
        ((at?_of_part (List.getElem?_eq_getElem inSecond)).trans reached') same.symm
      exact Nat.lt_irrefl late ((List.cons.inj one).1 ▸ before)

theorem antisymm {first second : Node} (wellFormed : root.WellFormed)
    (inside : root.Contains first) (lies : first.Contains second) (liesBack : second.Contains first) :
    first = second := by
  rcases contains_cases lies with same | ⟨index, way, reached⟩
  · exact same.symm
  · obtain ⟨back, reachedBack⟩ := liesBack
    cases wellFormed.inside inside (index :: way ++ back) [] first first
      (by rw [at?_append, reached, Option.bind_some, reachedBack]) rfl rfl

theorem not_containsBelow {first second : Node} (wellFormed : root.WellFormed)
    (inside : root.Contains first) (lies : first.ContainsBelow second) : ¬ second.Contains first := by
  intro back
  obtain rfl := wellFormed.antisymm inside lies.contains back
  obtain ⟨index, way, reached⟩ := lies
  cases wellFormed.inside inside (index :: way) [] first first reached rfl rfl

end WellFormed

theorem Distinct.wellFormed {root : Node} (distinct : root.Distinct) : root.WellFormed := by
  have among {node : Node} {way : List Nat} {below : Node} (reached : node.at? way = some below) :
      below.id ∈ node.descendants.map Node.id :=
    List.mem_map.2 ⟨below, mem_descendants_iff.2 ⟨way, reached⟩, rfl⟩
  -- two parts share no identity, in whatever order they stand
  have apart {root : Node} (distinct : root.Distinct) {early late : Nat} {first second : Node}
      (isFirst : root.children[early]? = some first) (isSecond : root.children[late]? = some second)
      (before : early < late) :
      List.Disjoint (first.descendants.map Node.id) (second.descendants.map Node.id) := by
    obtain ⟨inFirst, rfl⟩ := List.getElem?_eq_some_iff.1 isFirst
    obtain ⟨inSecond, rfl⟩ := List.getElem?_eq_some_iff.1 isSecond
    exact List.pairwise_iff_getElem.1 distinct.children_disjoint _ _ inFirst inSecond before
  intro way
  induction way generalizing root with
  | nil =>
    intro way' node node' reached reached' same
    obtain rfl := Option.some.inj reached
    cases way' with
    | nil => rfl
    | cons index way' =>
      obtain ⟨part, isPart, reached'⟩ := exists_part_of_at? reached'
      exact absurd (same ▸ among reached') (distinct.not_mem_child (List.mem_of_getElem? isPart))
  | cons index way ih =>
    intro way' node node' reached reached' same
    obtain ⟨part, isPart, reached⟩ := exists_part_of_at? reached
    cases way' with
    | nil =>
      obtain rfl := Option.some.inj reached'
      exact absurd (same ▸ among reached) (distinct.not_mem_child (List.mem_of_getElem? isPart))
    | cons index' way' =>
      obtain ⟨part', isPart', reached'⟩ := exists_part_of_at? reached'
      rcases Nat.lt_trichotomy index index' with before | rfl | after
      · exact absurd (same ▸ among reached') (apart distinct isPart isPart' before (among reached))
      · obtain rfl := Option.some.inj (isPart.symm.trans isPart')
        rw [ih (distinct.child (List.mem_of_getElem? isPart)) way' node node' reached reached' same]
      · exact absurd (among reached) (apart distinct isPart' isPart after (same ▸ among reached'))

theorem descendants_eq_preorder (node : Node) : node.descendants = node.preorder := by
  induction node using Node.induction with
  | step node ih =>
    rw [descendants_eq, preorder_eq]
    exact congrArg (node :: ·) (List.flatMap_congr ih)

section Postorder

variable {node outer below : Node}

theorem postorder_perm (node : Node) : node.postorder.Perm node.descendants := by
  induction node using Node.induction with
  | step node ih =>
    rw [descendants_eq, postorder_eq]
    exact (List.perm_append_singleton node _).trans ((List.Perm.flatMap_left _ ih).cons node)

theorem Contains.postorder_sublist (lies : node.Contains outer) :
    outer.postorder.Sublist node.postorder := by
  induction node using Node.induction with
  | step node ih =>
    rcases contains_cases lies with rfl | lies
    · exact .refl _
    · obtain ⟨part, inside, lies⟩ := containsBelow_iff.1 lies
      have stretch := (List.singleton_sublist.2 inside).flatMap postorder
      rw [List.flatMap_singleton] at stretch
      rw [postorder_eq node]
      exact (ih part inside lies).trans (stretch.trans (List.sublist_append_left _ _))

theorem ContainsBelow.before_in_postorder (lies : outer.ContainsBelow below) :
    [below, outer].Sublist outer.postorder := by
  obtain ⟨part, inside, lies⟩ := containsBelow_iff.1 lies
  have ahead : [below].Sublist (outer.children.flatMap postorder) :=
    List.singleton_sublist.2 (List.mem_flatMap.2 ⟨part, inside, mem_postorder_iff.2 lies⟩)
  rw [postorder_eq]
  exact ahead.append (.refl [outer])

theorem siblings_in_postorder {left right first second : Node}
    (ordered : [left, right].Sublist outer.children) (inLeft : left.Contains first)
    (inRight : right.Contains second) : [first, second].Sublist outer.postorder := by
  have both : (left.postorder ++ right.postorder).Sublist (outer.children.flatMap postorder) := by
    have parts := ordered.flatMap postorder
    rwa [List.flatMap_cons, List.flatMap_cons, List.flatMap_nil, List.append_nil] at parts
  have ahead : [first].Sublist left.postorder :=
    List.singleton_sublist.2 (mem_postorder_iff.2 inLeft)
  have behind : [second].Sublist right.postorder :=
    List.singleton_sublist.2 (mem_postorder_iff.2 inRight)
  rw [postorder_eq]
  exact (ahead.append behind).trans (both.trans (List.sublist_append_left _ _))

theorem map_node_belowUp (around : List Node) (node : Node) :
    (Place.belowUp around node).map Place.node = node.postorder := by
  induction node using Node.induction generalizing around with
  | step node ih =>
    rw [Place.belowUp_eq, postorder_eq, List.map_append, List.map_flatMap]
    exact congrArg (· ++ [node]) (List.flatMap_congr fun part inside => ih part inside _)

end Postorder

section Own

variable {node part below : Node} {index : Nat}

theorem WellFormed.not_hides_part (wellFormed : node.WellFormed) (inside : part ∈ node.children) :
    ¬ node.Hides part := by
  rintro ⟨type, ⟨index, way, reached⟩, -, index', way', reached'⟩
  obtain ⟨direct, isPart⟩ := List.mem_iff_getElem?.1 inside
  have one := wellFormed (index :: way ++ index' :: way') [direct] part part
    (by rw [at?_append, reached, Option.bind_some, reached']) (at?_of_part isPart) rfl
  have short := congrArg List.length one
  rw [List.length_append, List.length_cons, List.length_cons, List.length_singleton] at short
  omega

theorem WellFormed.not_hides_self (wellFormed : node.WellFormed) : ¬ node.Hides node := by
  rintro ⟨type, ⟨index, way, reached⟩, -, index', way', reached'⟩
  cases wellFormed (index :: way ++ index' :: way') [] node node
    (by rw [at?_append, reached, Option.bind_some, reached']) rfl rfl

theorem WellFormed.hides_iff (wellFormed : node.WellFormed) (inside : part ∈ node.children)
    (noType : part.shape.isType = false) (lies : part.Contains below) :
    node.Hides below ↔ part.Hides below := by
  obtain ⟨direct, isPart⟩ := List.mem_iff_getElem?.1 inside
  constructor
  · rintro ⟨type, ⟨index, way, reached⟩, isType, index', way', reached'⟩
    obtain ⟨down, reachedBelow⟩ := lies
    have one := wellFormed (index :: way ++ index' :: way') (direct :: down) below below
      (by rw [at?_append, reached, Option.bind_some, reached'])
      ((at?_of_part isPart).trans reachedBelow) rfl
    obtain rfl : index = direct := (List.cons.inj one).1
    rw [at?_of_part isPart] at reached
    refine ⟨type, (contains_cases ⟨way, reached⟩).resolve_left ?_, isType, index', way', reached'⟩
    rintro rfl
    rw [noType] at isType
    cases isType
  · rintro ⟨type, inPart, isType, holds⟩
    exact ⟨type, containsBelow_iff.2 ⟨part, inside, inPart.contains⟩, isType, holds⟩

theorem WellFormed.ownDescendants_eq_filter (wellFormed : node.WellFormed) {shown : Node → Bool}
    (isShown : ∀ below, node.Contains below → (shown below ↔ ¬ node.Hides below)) :
    node.ownDescendants = node.descendants.filter shown := by
  induction node using Node.induction with
  | step node ih =>
    have inPart {part below : Node} (inside : part ∈ node.children) (lies : part.Contains below) :
        node.ContainsBelow below := containsBelow_iff.2 ⟨part, inside, lies⟩
    rw [ownDescendants_eq, descendants_eq, List.filter_cons_of_pos
      ((isShown node (.self node)).2 wellFormed.not_hides_self), List.filter_flatMap]
    refine congrArg (node :: ·) (List.flatMap_congr fun part inside => ?_)
    cases isType : part.shape.isType with
    | true =>
      have hidden : ∀ below ∈ part.children.flatMap descendants, ¬ shown below := by
        intro below listed isShown'
        obtain ⟨deeper, among, listed⟩ := List.mem_flatMap.1 listed
        have lies := containsBelow_iff.2 ⟨deeper, among, mem_descendants_iff.1 listed⟩
        exact (isShown below (inPart inside lies.contains).contains).1 isShown'
          ⟨part, inPart inside (.self part), isType, lies⟩
      have here : shown part := (isShown part (inPart inside (.self part)).contains).2
        (wellFormed.not_hides_part inside)
      rw [if_pos rfl, descendants_eq, List.filter_cons_of_pos here, List.filter_eq_nil_iff.2 hidden]
    | false =>
      rw [if_neg Bool.false_ne_true]
      refine ih part inside (wellFormed.child inside) fun below lies => ?_
      rw [isShown below (inPart inside lies).contains, wellFormed.hides_iff inside isType lies]

end Own

structure Walked (node : Node) : Prop where
  preorder : node.descendants = node.preorder
  listed : ∀ below, below ∈ node.descendants ↔ node.Contains below
  once : ∀ below, node.Contains below → (node.descendants.map Node.id).count below.id = 1
  /-- The resolver visits the nodes in postorder, whatever is around the tree. -/
  visited : ∀ around, (Place.belowUp around node).map Place.node = node.postorder
  same : node.postorder.Perm node.descendants
  later : ∀ outer below, node.Contains outer → outer.ContainsBelow below →
    [below, outer].Sublist node.postorder
  siblings : ∀ outer left right first second, node.Contains outer →
    [left, right].Sublist outer.children → left.Contains first → right.Contains second →
      [first, second].Sublist node.postorder
  /-- The walk inside a type leaves out what lies inside the types nested in it. -/
  own : ∃ shown : Node → Bool, (∀ below, shown below ↔ ¬ node.Hides below) ∧
    node.ownDescendants = node.descendants.filter shown

/-- The walks with a stack list every subtree of a well-formed tree. -/
theorem walks_list {root node : Node} (wellFormed : root.WellFormed) (inside : root.Contains node) :
    node.Walked where
  preorder := descendants_eq_preorder node
  listed := fun _ => mem_descendants_iff
  once below lies := by
    refine List.count_eq_one_of_mem (wellFormed.inside inside).distinct ?_
    exact List.mem_map.2 ⟨below, mem_descendants_iff.2 lies, rfl⟩
  visited around := map_node_belowUp around node
  same := postorder_perm node
  later _ _ lies below := below.before_in_postorder.trans lies.postorder_sublist
  siblings _ _ _ _ _ lies ordered inLeft inRight :=
    (siblings_in_postorder ordered inLeft inRight).trans lies.postorder_sublist
  own := by
    classical
    exact ⟨fun below => ¬ node.Hides below, fun _ => decide_eq_true_iff,
      (wellFormed.inside inside).ownDescendants_eq_filter fun _ _ => decide_eq_true_iff⟩

def nestedTypes : Node :=
  let node (index : Nat) (shape : Shape Node) : Node := .mk ⟨⟨index⟩, 1, 1, []⟩ shape
  node 0 (.type { name := "Outer", members := [
    node 1 (.field { name := "first" }),
    node 2 (.type { name := "Inner", members := [node 3 (.field { name := "second" })] }),
    node 4 (.method { name := "Run", kind := .sub, body := node 5 (.block []) })] })

/-- In the type inside the type only its own walk goes on. -/
theorem walks_list_nested : nestedTypes.WellFormed ∧ nestedTypes.Contains nestedTypes ∧
    nestedTypes.Walked ∧
    nestedTypes.descendants.map Node.id = [⟨0⟩, ⟨1⟩, ⟨2⟩, ⟨3⟩, ⟨4⟩, ⟨5⟩] ∧
    nestedTypes.postorder.map Node.id = [⟨1⟩, ⟨3⟩, ⟨2⟩, ⟨5⟩, ⟨4⟩, ⟨0⟩] ∧
    nestedTypes.ownDescendants.map Node.id = [⟨0⟩, ⟨1⟩, ⟨2⟩, ⟨4⟩, ⟨5⟩] := by
  have listed : nestedTypes.descendants.map Node.id = [⟨0⟩, ⟨1⟩, ⟨2⟩, ⟨3⟩, ⟨4⟩, ⟨5⟩] := by
    simp [nestedTypes, descendants_eq, children, shape, id, info, Shape.children, Shape.varParts]
  have wellFormed : nestedTypes.WellFormed := Distinct.wellFormed (by
    rw [Distinct, listed]
    decide)
  have parts (info : NodeInfo) (shape : Shape Node) : ownDescent.parts (.mk info shape) =
      if shape.isType then [] else shape.children := rfl
  refine ⟨wellFormed, .self _, walks_list wellFormed (.self _), listed, ?_, ?_⟩
  · simp [nestedTypes, postorder_eq, children, shape, id, info, Shape.children, Shape.varParts]
  · simp [nestedTypes, ownDescendants, Descent.push, Descent.down, Descent.opened_eq, parts, children,
      shape, id, info, Shape.children, Shape.varParts, Shape.isType]

end Node

end ScriptMigration
