import Mathlib.Data.List.Pairwise
import ScriptMigration.Proofs.Syntax.Regular

/-! Trees by identities. Where no identity is used twice, every node but the root is a part of one
node only. Where its parent is noted as that node, the way up by the noted parents leads through the nodes
around it. -/
namespace ScriptMigration

namespace Place

variable {around : List Node} {node : Node} {place : Place}

theorem exists_parent (found : place ∈ belowUp around node) : place = ⟨node, around⟩ ∨
    ∃ parent ∈ node.descendants, place.parent? = some parent ∧ place.node ∈ parent.children := by
  induction node using Node.induction generalizing around with
  | step node ih =>
    rcases mem_belowUp_cases found with here | ⟨part, inside, below⟩
    · exact .inl here
    · rcases ih part inside below with rfl | ⟨parent, lies, known, isPart⟩
      · exact .inr ⟨node, node.mem_descendants_self, rfl, inside⟩
      · exact .inr ⟨parent, Node.mem_descendants_of_child inside lies, known, isPart⟩

theorem map_node_below (around : List Node) (node : Node) :
    (below around node).map Place.node = node.descendants := by
  induction node using Node.induction generalizing around with
  | step node ih =>
    rw [below_eq, Node.descendants_eq, List.map_cons, List.map_flatMap]
    exact congrArg (node :: ·) (List.flatMap_congr fun part inside => ih part inside _)

end Place

namespace Node

variable {root node : Node} {holds : NodeId → NodeId → Prop}

/-- What holds of the types that stay, and of every node once it holds of its parts, holds of a tree that is
replaced up to the nested types. -/
theorem mapInType_induction {f : Node → Node} {motive : Node → Node → Prop}
    (stays : ∀ node, motive node node) (step : ∀ old ∈ root.ownDescendants,
      (∀ part ∈ old.children, motive part (partInType f part)) →
        motive old (f (old.withParts (partInType f)))) : motive root (root.mapInType f) := by
  induction root using Node.induction with
  | step root ih =>
    rw [mapInType_eq]
    rw [ownDescendants_eq] at step
    refine step root List.mem_cons_self fun part isPart => ?_
    unfold partInType
    split
    · exact stays part
    · rename_i noType
      refine ih part isPart fun old lies => step old (List.mem_cons_of_mem _ ?_)
      exact List.mem_flatMap.2 ⟨part, isPart, by rwa [if_neg noType]⟩

def LinksIn (holds : NodeId → NodeId → Prop) (root : Node) : Prop :=
  ∀ owner ∈ root.descendants, ∀ part ∈ owner.children, holds part.id owner.id

theorem mem_links {link : NodeId × NodeId} : link ∈ root.links ↔
    ∃ owner ∈ root.descendants, ∃ part ∈ owner.children, (part.id, owner.id) = link := by
  simp only [links, List.mem_flatMap, List.mem_map]

theorem links_subset (inside : node ∈ root.descendants) : node.links ⊆ root.links := by
  intro link listed
  obtain ⟨owner, lies, noted⟩ := mem_links.1 listed
  exact mem_links.2 ⟨owner, mem_descendants_trans lies inside, noted⟩

namespace LinksIn

theorem ofParts (parts : ∀ part ∈ root.children, holds part.id root.id ∧ part.LinksIn holds) :
    root.LinksIn holds :=
  forall_of_parts (fun part isPart => (parts part isPart).1) fun part isPart => (parts part isPart).2

theorem below (links : root.LinksIn holds) (inside : node ∈ root.descendants) : node.LinksIn holds :=
  fun owner lies => links owner (mem_descendants_trans lies inside)

theorem part {part : Node} (links : root.LinksIn holds) (isPart : part ∈ root.children) :
    holds part.id root.id ∧ part.LinksIn holds :=
  ⟨links root root.mem_descendants_self part isPart, links.below (child_mem_descendants isPart)⟩

theorem ofBare (bare : root.children = []) : root.LinksIn holds :=
  .ofParts fun part isPart => by simp [bare] at isPart

theorem mono {weaker : NodeId → NodeId → Prop} (links : root.LinksIn holds)
    (weakens : ∀ part owner, holds part owner → weaker part owner) : root.LinksIn weaker :=
  fun owner lies part isPart => weakens _ _ (links owner lies part isPart)

theorem self (root : Node) : root.LinksIn fun part owner => (part, owner) ∈ root.links :=
  fun owner lies part isPart => mem_links.2 ⟨owner, lies, part, isPart, rfl⟩

theorem withParts {g : Node → Node} (links : root.LinksIn holds)
    (same : ∀ part ∈ root.children, (g part).id = part.id ∧ (g part).LinksIn holds) :
    (root.withParts g).LinksIn holds := by
  refine .ofParts fun part isPart => ?_
  rw [children_withParts] at isPart
  obtain ⟨old, among, rfl⟩ := List.mem_map.1 isPart
  rw [(same old among).1]
  exact ⟨(links.part among).1, (same old among).2⟩

section Map

variable {f : Node → Node} (id : ∀ node, (f node).id = node.id)

include id

theorem mapUp (links : root.LinksIn holds) (step : ∀ old ∈ root.descendants,
    (old.rebuilt f).LinksIn holds → (f (old.rebuilt f)).LinksIn holds) :
    (root.mapUp f).LinksIn holds := by
  induction root using Node.induction with
  | step root ih =>
    rw [mapUp_eq]
    refine step root root.mem_descendants_self (links.withParts fun part isPart => ⟨?_, ?_⟩)
    · rw [mapUp_eq, id, id_rebuilt]
    · exact ih part isPart (links.part isPart).2 fun old lies =>
        step old (mem_descendants_of_child isPart lies)

theorem mapInType (links : root.LinksIn holds) (step : ∀ old ∈ root.ownDescendants,
    (old.withParts (partInType f)).LinksIn holds →
      (f (old.withParts (partInType f))).LinksIn holds) : (root.mapInType f).LinksIn holds := by
  refine (mapInType_induction (motive := fun old new =>
    old.LinksIn holds → new.id = old.id ∧ new.LinksIn holds) (fun _ links => ⟨rfl, links⟩) ?_ links).2
  intro old own parts links
  refine ⟨id _, step old own (links.withParts fun part isPart => ?_)⟩
  exact parts part isPart (links.part isPart).2

end Map

theorem mapUp_adds {f : Node → Node} {leaves : Node → List Node} (adds : Adds f leaves)
    (links : root.LinksIn holds)
    (made : ∀ old ∈ root.descendants, ∀ leaf ∈ leaves (old.rebuilt f), holds leaf.id old.id) :
    (root.mapUp f).LinksIn holds := by
  refine links.mapUp adds.id fun old lies rebuilt => .ofParts fun part isPart => ?_
  rw [adds.children] at isPart
  rw [adds.id]
  rcases List.mem_append.1 isPart with leaf | isPart
  · rw [id_rebuilt]
    exact ⟨made old lies part leaf, .ofBare (adds.bare _ part leaf)⟩
  · exact rebuilt.part isPart

end LinksIn

end Node

namespace ParentLinks

variable {links : ParentLinks} {part owner id : NodeId} {pairs : List (NodeId × NodeId)}

theorem parent?_link : (links.link part owner).parent? id =
    if part = id then some owner else links.parent? id := by
  simp [link, parent?, Std.HashMap.getElem?_insert]

/-- After some nodes are linked, the parent of a node is the one that it was linked to last, or the one that
was noted before. -/
theorem parent?_linkAll (links : ParentLinks) (pairs : List (NodeId × NodeId)) (id : NodeId) :
    (∃ owner, (id, owner) ∈ pairs ∧ (links.linkAll pairs).parent? id = some owner) ∨
      (∀ owner, (id, owner) ∉ pairs) ∧ (links.linkAll pairs).parent? id = links.parent? id := by
  induction pairs generalizing links with
  | nil => exact .inr ⟨fun _ => List.not_mem_nil, rfl⟩
  | cons pair rest ih =>
    obtain ⟨part, owner⟩ := pair
    rcases ih (links.link part owner) with ⟨later, listed, noted⟩ | ⟨unlisted, noted⟩
    · exact .inl ⟨later, List.mem_cons_of_mem _ listed, noted⟩
    · rw [parent?_link] at noted
      by_cases same : part = id
      · rw [if_pos same] at noted
        exact .inl ⟨owner, by simp [same], noted⟩
      · rw [if_neg same] at noted
        refine .inr ⟨fun other listed => ?_, noted⟩
        rcases List.mem_cons.1 listed with here | later
        · exact same (Prod.mk.inj here).1.symm
        · exact unlisted other later

end ParentLinks

namespace Node

/-- The parents of a tree are noted: the root has none, and every other node the one that it is a part of. -/
structure Linked (root : Node) (links : ParentLinks) : Prop where
  top : links.parent? root.id = none
  parts : root.LinksIn fun part owner => links.parent? part = some owner

namespace Linked

variable {root : Node} {links : ParentLinks} {pairs : List (NodeId × NodeId)}

/-- Some nodes are linked that are not linked to two others. -/
theorem linkAll (top : links.parent? root.id = none) (rootless : ∀ owner, (root.id, owner) ∉ pairs)
    (covers : root.LinksIn fun part owner => (part, owner) ∈ pairs ∨ links.parent? part = some owner)
    (agree : root.LinksIn fun part owner => ∀ other, (part, other) ∈ pairs → other = owner) :
    root.Linked (links.linkAll pairs) := by
  constructor
  · rcases links.parent?_linkAll pairs root.id with ⟨owner, listed, -⟩ | ⟨-, same⟩
    · exact absurd listed (rootless owner)
    · exact same.trans top
  · intro owner lies part isPart
    rcases links.parent?_linkAll pairs part.id with ⟨other, listed, noted⟩ | ⟨unlisted, same⟩
    · rw [noted, agree owner lies part isPart other listed]
    · exact same.trans ((covers owner lies part isPart).resolve_left (unlisted owner.id))

/-- Nodes that are made are linked once, and all others are parts of what they were parts of. -/
theorem extend {new : Node} {bound : Nat} (linked : root.Linked links) (same : new.id = root.id)
    (small : root.id.index < bound) (made : ∀ link ∈ pairs, bound ≤ link.1.index)
    (once : ∀ part owner other, (part, owner) ∈ pairs → (part, other) ∈ pairs → other = owner)
    (whole : new.LinksIn fun part owner =>
      (part, owner) ∈ pairs ∨ part.index < bound ∧ links.parent? part = some owner) :
    new.Linked (links.linkAll pairs) := by
  refine .linkAll (same ▸ linked.top) (fun owner listed => ?_)
    (whole.mono fun _ _ known => known.imp_right And.right) (whole.mono fun part owner known => ?_)
  · exact Nat.not_le_of_lt small (same ▸ made _ listed)
  · intro other listed
    rcases known with known | ⟨old, -⟩
    · exact once part owner other known listed
    · exact absurd (made _ listed) (Nat.not_le_of_lt old)

variable (linked : root.Linked links) {f : Node → Node}

include linked

theorem link {part : NodeId} (unused : ∀ node ∈ root.descendants, node.id ≠ part) (owner : NodeId) :
    root.Linked (links.link part owner) := by
  refine ⟨?_, fun outer lies below isPart => ?_⟩
  · rw [ParentLinks.parent?_link, if_neg (unused root root.mem_descendants_self).symm]
    exact linked.top
  · have inside := mem_descendants_trans (child_mem_descendants isPart) lies
    have other : (links.link part owner).parent? below.id = links.parent? below.id := by
      rw [ParentLinks.parent?_link, if_neg (unused below inside).symm]
    exact other.trans (linked.parts outer lies below isPart)

/-- A pass that only takes parts away leaves the parents as they are noted. -/
theorem mapUp (id : ∀ node, (f node).id = node.id)
    (fewer : ∀ node, (f node).children ⊆ node.children) : (root.mapUp f).Linked links := by
  refine ⟨by rw [mapUp_eq, id, id_rebuilt]; exact linked.top, linked.parts.mapUp id ?_⟩
  intro old _ rebuilt
  refine .ofParts fun part isPart => ?_
  rw [id]
  exact rebuilt.part (fewer _ isPart)

theorem mapUp_adds {leaves : Node → List Node} (adds : Adds f leaves)
    (made : ∀ old ∈ root.descendants, ∀ leaf ∈ leaves (old.rebuilt f),
      links.parent? leaf.id = some old.id) : (root.mapUp f).Linked links :=
  ⟨by rw [adds.id_mapUp]; exact linked.top, linked.parts.mapUp_adds adds made⟩

end Linked

end Node

namespace Node

namespace Distinct

variable {root : Node} (distinct : root.Distinct)

include distinct

theorem root_not_mem_children {node : Node} (inside : node ∈ root.descendants) :
    root.id ∉ node.children.map Node.id := by
  intro listed
  have perm := (descendants_perm_children root).map Node.id
  have once := (perm.nodup_iff.1 distinct)
  rw [List.map_cons, List.map_flatMap] at once
  exact (List.nodup_cons.1 once).1 (List.mem_flatMap.2 ⟨node, inside, listed⟩)

theorem children_nodup {node : Node} (inside : node ∈ root.descendants) :
    (node.children.map Node.id).Nodup :=
  (List.nodup_flatMap.1 (distinct.parts_nodup fun _ _ => List.Sublist.refl _)).1 node inside

theorem parent_unique {first second : Node} (left : first ∈ root.descendants)
    (right : second ∈ root.descendants) {id : NodeId} (isPart : id ∈ first.children.map Node.id)
    (alsoPart : id ∈ second.children.map Node.id) : first = second := by
  by_contra differ
  have apart := (List.nodup_flatMap.1 (distinct.parts_nodup fun _ _ => List.Sublist.refl _)).2
  have both : Std.Symm fun one other : Node =>
      List.Disjoint (one.children.map Node.id) (other.children.map Node.id) :=
    ⟨fun _ _ disjoint _ left right => disjoint right left⟩
  exact apart.forall left right differ isPart alsoPart

/-- A node that some nodes of the tree are linked to is the one that they are parts of, if only links of the
tree are noted. -/
theorem agree {pairs : List (NodeId × NodeId)} (within : ∀ link ∈ pairs, link ∈ root.links) :
    (∀ owner, (root.id, owner) ∉ pairs) ∧
      root.LinksIn fun part owner => ∀ other, (part, other) ∈ pairs → other = owner := by
  constructor
  · intro owner listed
    obtain ⟨node, lies, part, isPart, same⟩ := mem_links.1 (within _ listed)
    obtain ⟨isRoot, -⟩ := Prod.mk.inj same
    exact distinct.root_not_mem_children lies (isRoot ▸ List.mem_map_of_mem isPart)
  · intro owner lies part isPart other listed
    obtain ⟨node, lies', part', isPart', same⟩ := mem_links.1 (within _ listed)
    obtain ⟨samePart, rfl⟩ := Prod.mk.inj same
    rw [distinct.parent_unique lies' lies (samePart ▸ List.mem_map_of_mem isPart')
      (List.mem_map_of_mem isPart)]

/-- Linking some nodes to what they are parts of keeps the parents noted, if those of all others were. -/
theorem linkAll {links : ParentLinks} {pairs : List (NodeId × NodeId)}
    (top : links.parent? root.id = none) (within : ∀ link ∈ pairs, link ∈ root.links)
    (covers : root.LinksIn fun part owner => (part, owner) ∈ pairs ∨ links.parent? part = some owner) :
    root.Linked (links.linkAll pairs) :=
  .linkAll top (distinct.agree within).1 covers (distinct.agree within).2

theorem relink : root.Linked (ParentLinks.relink {} root) := by
  refine distinct.linkAll ?_ (fun _ listed => listed) ((LinksIn.self root).mono fun _ _ => .inl)
  simp [ParentLinks.parent?]

theorem places_nodup : (root.places.map (·.node.id)).Nodup := by
  have ids : root.places.map (·.node.id) = (root.places.map Place.node).map Node.id := by
    rw [List.map_map]
    rfl
  rw [ids, places, Place.map_node_below [] root]
  exact distinct

theorem getElem?_foldl_insert {node : Node} (inside : node ∈ root.descendants) (nodes : List Node)
    (table : Std.HashMap NodeId Node) (among : ∀ other ∈ nodes, other ∈ root.descendants)
    (known : node ∈ nodes ∨ table[node.id]? = some node) :
    (nodes.foldl (fun table other => table.insert other.id other) table)[node.id]? = some node := by
  induction nodes generalizing table with
  | nil =>
    rcases known with listed | known
    · simp at listed
    · exact known
  | cons first rest ih =>
    refine ih _ (fun other listed => among other (List.mem_cons_of_mem _ listed)) ?_
    rw [Std.HashMap.getElem?_insert]
    by_cases same : first.id = node.id
    · have equal := distinct.eq_of_id_eq (among first List.mem_cons_self) inside same
      exact .inr (by simp [equal])
    · rcases known with listed | known
      · rcases List.mem_cons.1 listed with rfl | listed
        · exact absurd rfl same
        · exact .inl listed
      · exact .inr (by simp [same, known])

theorem place_unique {place other : Place} (placed : place ∈ root.placesUp)
    (placed' : other ∈ root.placesUp) (same : place.node.id = other.node.id) : place = other :=
  List.inj_on_of_nodup_map distinct.places_nodup (mem_places_iff.2 placed)
    (mem_places_iff.2 placed') same

end Distinct

end Node

namespace Place

variable {root node outer : Node} {around : List Node}

theorem mem_placesUp_of_append {inner : List Node}
    (found : ⟨node, inner ++ outer :: around⟩ ∈ root.placesUp) : ⟨outer, around⟩ ∈ root.placesUp := by
  induction inner generalizing node with
  | nil => exact around_mem_placesUp found
  | cons first rest ih => exact ih (around_mem_placesUp found)

theorem mem_of_around {place : Place} (found : place ∈ root.placesUp)
    (inside : outer ∈ place.around) : outer ∈ root.descendants ∧ place.node ∈ outer.descendants := by
  obtain ⟨node, around⟩ := place
  induction around generalizing node with
  | nil => exact nomatch inside
  | cons parent around ih =>
    have above := around_mem_placesUp found
    have isPart : node ∈ parent.descendants := by
      obtain same | ⟨other, -, known, isPart⟩ := exists_parent found
      · exact nomatch (Place.mk.inj same).2
      · obtain rfl := Option.some.inj known
        exact Node.child_mem_descendants isPart
    rcases List.mem_cons.1 inside with rfl | farther
    · exact ⟨Node.node_mem_of_mem_placesUp above, isPart⟩
    · exact (ih parent above farther).imp_right (Node.mem_descendants_trans isPart)

theorem types_eq_of_method? (distinct : root.Distinct) {place other : Place} {method : Node}
    (found : place ∈ root.placesUp) (found' : other ∈ root.placesUp)
    (inMethod : place.method? = some method) (inMethod' : other.method? = some method) :
    place.types = other.types := by
  have split {place : Place} (found : place ∈ root.placesUp) (inMethod : place.method? = some method) :
      ∃ around, ⟨method, around⟩ ∈ root.placesUp ∧
        place.types = around.filter (·.shape.isType) := by
    obtain ⟨first, isMethod⟩ := Option.filter_eq_some_iff.1 inMethod
    obtain ⟨-, inner, around, same, others⟩ := List.find?_eq_some_iff_append.1 first
    have here : ⟨place.node, inner ++ method :: around⟩ ∈ root.placesUp := same ▸ found
    refine ⟨around, mem_placesUp_of_append here, ?_⟩
    have noType : method.shape.isType = false := by
      cases shape : method.shape <;> rw [shape] at isMethod <;> first | rfl | exact nomatch isMethod
    rw [types, same, List.filter_append, List.filter_cons, if_neg (by rw [noType]; decide),
      List.filter_eq_nil_iff.2, List.nil_append]
    intro node listed isType
    have neither := others node listed
    rw [isType, Bool.or_true] at neither
    exact nomatch neither
  obtain ⟨around, placed, types⟩ := split found inMethod
  obtain ⟨around', placed', types'⟩ := split found' inMethod'
  rw [types, types', (Place.mk.inj (distinct.place_unique placed placed' rfl)).2]

end Place

namespace Node

/-- The nodes of a tree by their identities and noted parents: no identity is that of two nodes, the root
is no part of any node and has no parent, and every other node is once a part of one node, which is its
parent. -/
structure IsTree (root : Node) (links : ParentLinks) : Prop where
  distinct : (root.descendants.map Node.id).Nodup
  top : ∀ node ∈ root.descendants, root.id ∉ node.children.map Node.id
  noParent : links.parent? root.id = none
  parent : ∀ node ∈ root.descendants, node.id ≠ root.id → ∃ parent ∈ root.descendants,
    links.parent? node.id = some parent.id ∧ (parent.children.map Node.id).count node.id = 1 ∧
      ∀ other ∈ root.descendants, node.id ∈ other.children.map Node.id → other = parent

namespace Linked

variable {root : Node} {links : ParentLinks} (linked : root.Linked links)

include linked

theorem isTree (distinct : root.Distinct) : root.IsTree links := by
  refine ⟨distinct, fun node inside => distinct.root_not_mem_children inside, linked.top,
    fun node inside isBelow => ?_⟩
  obtain ⟨place, placed, rfl⟩ := Place.exists_mem_belowUp [] inside
  rcases Place.exists_parent placed with rfl | ⟨parent, lies, -, isPart⟩
  · exact absurd rfl isBelow
  · have listed : place.node.id ∈ parent.children.map Node.id := List.mem_map_of_mem isPart
    exact ⟨parent, lies, linked.parts parent lies _ isPart,
      List.count_eq_one_of_mem (distinct.children_nodup lies) listed,
      fun other lies' alsoPart => distinct.parent_unique lies' lies alsoPart listed⟩

theorem around_eq {nodes : Std.HashMap NodeId Node}
    (table : ∀ node ∈ root.descendants, nodes[node.id]? = some node) {bound : Nat} {place : Place}
    (placed : place ∈ root.placesUp) (enough : place.around.length ≤ bound) :
    links.around nodes bound place.node.id = place.around := by
  obtain ⟨node, around⟩ := place
  induction around generalizing node bound with
  | nil =>
    obtain same | ⟨_, _, absurd, _⟩ := Place.exists_parent placed
    · obtain rfl := (Place.mk.inj same).1
      cases bound with
      | zero => rfl
      | succ bound => simp only [ParentLinks.around, linked.top, Option.bind_none]
    · simp [Place.parent?] at absurd
  | cons parent around ih =>
    cases bound with
    | zero => simp at enough
    | succ bound =>
      have above := Place.around_mem_placesUp placed
      obtain same | ⟨other, lies, known, isPart⟩ := Place.exists_parent placed
      · simp at same
      · obtain rfl := Option.some.inj known
        have noted := linked.parts parent lies node isPart
        have rest := ih parent above (Nat.le_of_succ_le_succ enough)
        simp only [ParentLinks.around, noted, Option.bind_some, table parent lies]
        exact congrArg (parent :: ·) rest

end Linked

end Node

theorem Place.around_length_lt {around : List Node} {node : Node} {place : Place}
    (found : place ∈ belowUp around node) :
    place.around.length < around.length + node.descendants.length := by
  induction node using Node.induction generalizing around with
  | step node ih =>
    rw [Node.descendants_eq, List.length_cons]
    rcases mem_belowUp_cases found with rfl | ⟨part, inside, below⟩
    · exact Nat.lt_add_of_pos_right (Nat.succ_pos _)
    · have deeper := ih part inside below
      have among : part.descendants.length ≤ (node.children.flatMap Node.descendants).length :=
        (List.sublist_flatten_of_mem (List.mem_map_of_mem inside)).length_le
      rw [List.length_cons] at deeper
      omega

theorem Module.linkedPlaces_eq {module : Module} (linked : module.root.Linked module.parents)
    (distinct : module.root.Distinct) : module.linkedPlaces = module.root.places := by
  have same : ∀ place ∈ module.root.places, (⟨place.node, module.parents.around
      (module.nodes.foldl (fun table node => table.insert node.id node) {}) module.nodes.length
      place.node.id⟩ : Place) = place := by
    intro place found
    have placed := Node.mem_places_iff.1 found
    have few : place.around.length ≤ module.nodes.length := by
      have few := Place.around_length_lt placed
      rw [List.length_nil, Nat.zero_add] at few
      exact Nat.le_of_lt few
    have table : ∀ node ∈ module.root.descendants, (module.nodes.foldl
        (fun (table : Std.HashMap NodeId Node) node => table.insert node.id node) {})[node.id]? =
          some node := fun node inside =>
      distinct.getElem?_foldl_insert inside _ _ (fun _ listed => listed) (.inl inside)
    rw [linked.around_eq table placed few]
  have nodes : module.nodes = module.root.places.map Place.node :=
    (Place.map_node_below [] module.root).symm
  unfold linkedPlaces
  dsimp only
  conv_lhs => arg 2; rw [nodes]
  rw [List.map_map]
  exact (List.map_congr_left same).trans (List.map_id _)

end ScriptMigration
