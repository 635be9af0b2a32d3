import ScriptMigration.Proofs.Reshape.ReturnMeaning
import ScriptMigration.Proofs.Syntax.Tree

/-! Giving back values by returning them notes the parents of all nodes that are made: the variable and
the return of a procedure get its body, values the statement that they stand in. -/
namespace ScriptMigration

namespace Node

theorem family_of_bare {node : Node} (bare : node.children = []) : node.shape.family ≠ .method := by
  intro isMethod
  obtain ⟨decl, shape⟩ := (Shape.family_eq_method_iff _).1 isMethod
  have isPart := body_mem_children shape
  rw [bare] at isPart
  exact nomatch isPart

def Methodless (root : Node) : Prop := ∀ node ∈ root.descendants, node.shape.family ≠ .method

namespace Methodless

variable {root node : Node}

theorem ofParts (here : node.shape.family ≠ .method) (parts : ∀ part ∈ node.children, part.Methodless) :
    node.Methodless := forall_of_parts here parts

theorem ofBare (bare : node.children = []) : node.Methodless :=
  .ofParts (family_of_bare bare) fun part isPart => by simp [bare] at isPart

theorem part (none : node.Methodless) {part : Node} (isPart : part ∈ node.children) :
    part.Methodless := fun below lies => none below (mem_descendants_of_child isPart lies)

end Methodless

def Flat (root : Node) : Prop := ∀ outer ∈ root.descendants, outer.shape.family = .method →
  ∀ part ∈ outer.children, part.Methodless

namespace Flat

variable {root node : Node} {f : Node → Node}

theorem ofParts (here : node.shape.family = .method → ∀ part ∈ node.children, part.Methodless)
    (parts : ∀ part ∈ node.children, part.Flat) : node.Flat :=
  forall_of_parts here parts

theorem ofMethodless (none : root.Methodless) : root.Flat :=
  fun outer inside isMethod => absurd isMethod (none outer inside)

theorem part (flat : node.Flat) {part : Node} (isPart : part ∈ node.children) : part.Flat :=
  fun outer inside => flat outer (mem_descendants_of_child isPart inside)

theorem ofLayers (layers : root.InLayers) : root.Flat := by
  intro outer inside isMethod part isPart below lies isBelow
  rcases family_below_method (layers.below inside) isMethod isPart lies with isParam | inner
  · exact nomatch isBelow.symm.trans isParam
  · rw [isBelow] at inner
    exact nomatch inner

theorem rebuilt_eq (flat : root.Flat) (inside : node ∈ root.descendants)
    (isMethod : node.shape.family = .method)
    (fixes : ∀ other : Node, other.shape.family ≠ .method → f other = other) :
    node.rebuilt f = node :=
  withParts_of_fixed fun part isPart => mapUp_of_fixed fun below lies =>
    fixes below (flat node inside isMethod part isPart below lies)

theorem prune (flat : root.Flat) (cuts : ∀ node, f node = node ∨ (f node).children = []) :
    (root.mapUp f).Flat ∧ (root.Methodless → (root.mapUp f).Methodless) := by
  induction root using Node.induction with
  | step root ih =>
    rw [mapUp_eq]
    rcases cuts (root.rebuilt f) with same | bare
    · rw [same]
      constructor
      · refine .ofParts (fun isMethod part isPart => ?_) fun part isPart => ?_
        all_goals
          rw [children_rebuilt] at isPart
          obtain ⟨old, among, rfl⟩ := List.mem_map.1 isPart
        · rw [family_rebuilt] at isMethod
          exact (ih old among (flat.part among)).2 (flat root root.mem_descendants_self isMethod old among)
        · exact (ih old among (flat.part among)).1
      · intro none
        refine .ofParts ?_ fun part isPart => ?_
        · rw [family_rebuilt]
          exact none root root.mem_descendants_self
        · rw [children_rebuilt] at isPart
          obtain ⟨old, among, rfl⟩ := List.mem_map.1 isPart
          exact (ih old among (flat.part among)).2 (none.part among)
    · exact ⟨.ofMethodless (.ofBare bare), fun _ => .ofBare bare⟩

end Flat

end Node

namespace ReturnValue

variable {holds : NodeId → NodeId → Prop} {ids : NewIds} {method : Node} {decl : MethodDecl Node}

inductive Replaced (holds : NodeId → NodeId → Prop) (node : Node) : Node → Prop where
  | stays : Replaced holds node node
  | leaf {shape : Shape Node} (bare : shape.children = []) : Replaced holds node (node.withShape shape)
  | returns {value : Node} (bare : value.children = []) (linked : holds value.id node.id) :
    Replaced holds node (node.withShape (.returnStmt (some value)))

/-- A statement over a value that a plan puts into a body. -/
structure Frames.Links (holds : NodeId → NodeId → Prop) (body : NodeId) (node : Node) : Prop where
  family : node.shape.family ≠ .method
  linked : holds node.id body
  value : ∀ value ∈ node.children, value.children = [] ∧ holds value.id node.id

/-- A body with nodes replaced and statements put around its own, so that all that is new in it stands
in some way to what it is a part of. -/
inductive Relinked (holds : NodeId → NodeId → Prop) (body : Node) : Node → Prop where
  | framed {replace : Node → Node} {first : List Node} {last : List Node → List Node}
      (id : ∀ node, (replace node).id = node.id)
      (replaces : ∀ node ∈ body.ownDescendants, ∀ g : Node → Node,
        Replaced holds (node.withParts g) (replace (node.withParts g)))
      (frames : ∀ node ∈ first ++ last (body.mapInType replace).stmts,
        Frames.Links holds body.id node) :
      Relinked holds body (rebuilt body replace first last)

namespace Replaced

variable {node new : Node}

theorem linksIn (replaced : Replaced holds node new) (links : node.LinksIn holds) :
    new.LinksIn holds := by
  cases replaced with
  | stays => exact links
  | leaf bare => exact .ofBare bare
  | returns bare linked =>
    refine .ofParts fun part isPart => ?_
    obtain rfl := List.mem_singleton.1 isPart
    exact ⟨linked, .ofBare bare⟩

theorem methodless (replaced : Replaced holds node new) (none : node.Methodless) : new.Methodless := by
  cases replaced with
  | stays => exact none
  | leaf bare => exact .ofBare bare
  | returns bare linked =>
    refine .ofParts nofun fun part isPart => ?_
    obtain rfl := List.mem_singleton.1 isPart
    exact .ofBare bare

end Replaced

namespace Relinked

variable {body new : Node}

theorem linksIn (relinked : Relinked holds body new) (links : body.LinksIn holds) :
    new.id = body.id ∧ new.LinksIn holds := by
  cases relinked with
  | @framed replace first last id replaces frames =>
    have same : (body.mapInType replace).id = body.id := by
      rw [Node.mapInType_eq, id]
      rfl
    have inner : (body.mapInType replace).LinksIn holds :=
      links.mapInType id fun old own parts => (replaces old own _).linksIn parts
    have around : ∀ part ∈ first ++ last (body.mapInType replace).stmts,
        holds part.id body.id ∧ part.LinksIn holds := fun part isPart =>
      ⟨(frames part isPart).linked, .ofParts fun value isValue =>
        ⟨((frames part isPart).value value isValue).2,
          .ofBare ((frames part isPart).value value isValue).1⟩⟩
    refine ⟨same, .ofParts fun part isPart => ?_⟩
    rw [show (rebuilt body replace first last).id = body.id from same]
    rcases List.mem_append.1 isPart with early | later
    · rcases List.mem_append.1 early with isFirst | isStmt
      · exact around part (List.mem_append_left _ isFirst)
      · rw [← same]
        exact inner.part (Node.mem_children_of_stmts isStmt)
    · exact around part (List.mem_append_right _ later)

theorem methodless (relinked : Relinked holds body new) (none : body.Methodless) :
    new.Methodless := by
  cases relinked with
  | @framed replace first last id replaces frames =>
    have inner : (body.mapInType replace).Methodless := by
      refine Node.mapInType_induction (motive := fun old new => old.Methodless → new.Methodless)
        (fun _ none => none) (fun old own parts none => (replaces old own _).methodless ?_) none
      refine .ofParts ?_ fun part isPart => ?_
      · rw [Node.family_withParts]
        exact none old old.mem_descendants_self
      · rw [Node.children_withParts] at isPart
        obtain ⟨source, among, rfl⟩ := List.mem_map.1 isPart
        exact parts source among (none.part among)
    have around : ∀ part ∈ first ++ last (body.mapInType replace).stmts, part.Methodless :=
      fun part isPart => .ofParts (frames part isPart).family fun value isValue =>
        .ofBare ((frames part isPart).value value isValue).1
    refine .ofParts nofun fun part isPart => ?_
    rcases List.mem_append.1 isPart with early | later
    · rcases List.mem_append.1 early with isFirst | isStmt
      · exact around part (List.mem_append_left _ isFirst)
      · exact inner.part (Node.mem_children_of_stmts isStmt)
    · exact around part (List.mem_append_right _ later)

end Relinked

theorem links_variableNode {name : String} {origin : Origin} {line : Nat} {initial : Node} {body : NodeId}
    (bare : initial.children = []) (named : initial.id = ids.initial)
    (linked : ∀ link ∈ variableLinks ids body, holds link.1 link.2) :
    Frames.Links holds body (variableNode ids name origin line initial) := by
  refine ⟨nofun, linked (ids.carrier, body) (by simp [variableLinks]), fun value isValue => ?_⟩
  obtain rfl := List.mem_singleton.1 isValue
  exact ⟨bare, named ▸ linked (ids.initial, ids.carrier) (by simp [variableLinks])⟩

theorem links_return {line : Nat} {value : Node} {body : NodeId} (bare : value.children = [])
    (named : value.id = ids.finalValue) (linked : ∀ link ∈ finalLinks ids body, holds link.1 link.2) :
    Frames.Links holds body (.made ids.final line (.returnStmt (some value))) := by
  refine ⟨nofun, linked (ids.final, body) (by simp [finalLinks]), fun part isValue => ?_⟩
  obtain rfl := List.mem_singleton.1 isValue
  exact ⟨bare, named ▸ linked (ids.finalValue, ids.final) (by simp [finalLinks])⟩

theorem isExit_mem_exitLinks {body node : Node} (own : node ∈ body.ownDescendants) {g : Node → Node}
    (exit : isExit (node.withParts g)) : (ids.atExit node.id, node.id) ∈ exitLinks ids body := by
  rw [isExit_withParts] at exit
  exact List.mem_map.2 ⟨node, List.mem_filter.2 ⟨own, exit⟩, rfl⟩

section Body

variable {notes : Notes} {ids : NewIds} {method : Node} {decl : MethodDecl Node}

theorem result_relinked {name : String} {type : Descriptor}
    (linked : ∀ link ∈ links ids decl.body (body notes ids method decl (.result name type))
      (.result name type), holds link.1 link.2) :
    Relinked holds decl.body (body notes ids method decl (.result name type)) := by
  have parts : ∀ link ∈ variableLinks ids decl.body.id ++ exitLinks ids decl.body,
      holds link.1 link.2 := fun link listed => linked link (List.mem_append_left _ listed)
  unfold body at linked ⊢
  refine .framed (fun node => ?_) (fun node own g => ?_) fun node listed => ?_
  · split
    · rfl
    · split <;> rfl
  · split
    · exact .leaf rfl
    · split
      · rename_i exit
        exact .returns rfl (parts _ (List.mem_append_right _ (isExit_mem_exitLinks own exit)))
      · exact .stays
  · rcases List.mem_append.1 listed with isFirst | isLast
    · obtain rfl := List.mem_singleton.1 isFirst
      exact links_variableNode rfl rfl fun link among => parts link (List.mem_append_left _ among)
    · split at isLast
      · cases isLast
      · rename_i open'
        obtain rfl := List.mem_singleton.1 isLast
        refine links_return rfl rfl fun link among => linked link (List.mem_append_right _ ?_)
        rw [if_pos]
        · exact among
        · show Option.any _ (List.getLast? (_ ++ ite _ [] _)) = true
          rw [if_neg open', List.getLast?_concat]
          exact beq_self_eq_true _

theorem default_relinked {type : Descriptor}
    (linked : ∀ link ∈ links ids decl.body (body notes ids method decl (.default type)) (.default type),
      holds link.1 link.2) :
    Relinked holds decl.body (body notes ids method decl (.default type)) := by
  unfold body at linked ⊢
  refine .framed (fun node => ?_) (fun node own g => ?_) fun node listed => ?_
  · split <;> rfl
  · split
    · rename_i exit
      exact .returns rfl (linked _ (List.mem_append_left _ (isExit_mem_exitLinks own exit)))
    · exact .stays
  · obtain rfl := List.mem_singleton.1 listed
    exact links_return rfl rfl fun link among => linked link (List.mem_append_right _ among)

theorem nothing_relinked {copied : Option Descriptor}
    (linked : ∀ link ∈ links ids decl.body (body notes ids method decl (.nothing copied)) (.nothing copied),
      holds link.1 link.2) :
    Relinked holds decl.body (body notes ids method decl (.nothing copied)) := by
  unfold body at linked ⊢
  refine .framed (fun node => ?_) (fun node own g => ?_) fun node listed => ?_
  · split
    · rfl
    · split <;> rfl
  · split
    · exact .leaf rfl
    · split
      · exact .leaf rfl
      · exact .stays
  · rw [List.append_nil] at listed
    split at listed
    · rename_i copies
      obtain rfl := List.mem_singleton.1 listed
      refine links_variableNode rfl rfl fun link among => linked link ?_
      rw [links, if_pos copies]
      exact among
    · cases listed

theorem body_relinked (plan : ReturnPlan)
    (linked : ∀ link ∈ links ids decl.body (body notes ids method decl plan) plan,
      holds link.1 link.2) :
    Relinked holds decl.body (body notes ids method decl plan) := by
  cases plan with
  | result name type => exact result_relinked linked
  | default type => exact default_relinked linked
  | nothing copied => exact nothing_relinked linked

end Body

end ReturnValue

namespace Draft

open ReturnValue

variable {draft : Draft} {localName : String}

inductive PutUnder (draft : Draft) (source : NodeId) : (plane : Nat) → NodeId → Prop where
  | body {plane : Nat} {method : Node} {decl : MethodDecl Node} (framing : plane = 1 ∨ plane = 4)
      (inside : method ∈ draft.root.descendants) (shape : method.shape = .method decl)
      (id : method.id = source) : PutUnder draft source plane decl.body.id
  | initial : PutUnder draft source 2 (draft.newId 1 source)
  | atExit : PutUnder draft source 3 source
  | finalValue : PutUnder draft source 5 (draft.newId 4 source)

theorem PutUnder.unique (distinct : draft.root.Distinct) {plane : Nat} {source owner other : NodeId}
    (first : draft.PutUnder source plane owner) (second : draft.PutUnder source plane other) :
    other = owner := by
  cases first with
  | body framing inside shape id =>
    cases second with
    | body framing' inside' shape' id' =>
      obtain rfl := distinct.eq_of_id_eq inside inside' (id.trans id'.symm)
      rw [Shape.method.inj (shape.symm.trans shape')]
    | initial | atExit | finalValue => simp at framing
  | initial | atExit | finalValue =>
    cases second with
    | body framing => simp at framing
    | _ => rfl

def IsMade (draft : Draft) (link : NodeId × NodeId) : Prop :=
  ∃ source ∈ draft.root.descendants.map Node.id, ∃ plane, 1 ≤ plane ∧ plane ≤ 5 ∧
    link.1 = draft.newId plane source ∧ draft.PutUnder source plane link.2

theorem mem_linkReturn {planned : PlannedMethod} {link : NodeId × NodeId}
    (listed : planned ∈ draft.plannedMethods localName) (linked : link ∈ draft.linkReturn planned) :
    draft.IsMade link := by
  obtain ⟨inside, shape⟩ := shape_of_planned listed
  have here := List.mem_map_of_mem (f := Node.id) inside
  have declared (among : link ∈ variableLinks (newIds draft planned.node.id) planned.decl.body.id) :
      draft.IsMade link := by
    simp only [variableLinks, List.mem_cons, List.not_mem_nil, or_false] at among
    rcases among with rfl | rfl
    · exact ⟨_, here, 1, by decide, by decide, rfl, .body (.inl rfl) inside shape rfl⟩
    · exact ⟨_, here, 2, by decide, by decide, rfl, .initial⟩
  have left (among : link ∈ exitLinks (newIds draft planned.node.id) planned.decl.body) :
      draft.IsMade link := by
    obtain ⟨exit, isExit, rfl⟩ := List.mem_map.1 among
    have lies := Node.mem_descendants_of_child (Node.body_mem_children shape)
      (Node.mem_ownDescendants (List.mem_of_mem_filter isExit))
    exact ⟨exit.id, List.mem_map_of_mem (Node.mem_descendants_trans lies inside), 3, by decide,
      by decide, rfl, .atExit⟩
  have ended (among : link ∈ finalLinks (newIds draft planned.node.id) planned.decl.body.id) :
      draft.IsMade link := by
    simp only [finalLinks, List.mem_cons, List.not_mem_nil, or_false] at among
    rcases among with rfl | rfl
    · exact ⟨_, here, 4, by decide, by decide, rfl, .body (.inr rfl) inside shape rfl⟩
    · exact ⟨_, here, 5, by decide, by decide, rfl, .finalValue⟩
  unfold linkReturn links at linked
  dsimp only at linked
  split at linked
  · rcases List.mem_append.1 linked with early | isFinal
    · exact (List.mem_append.1 early).elim declared left
    · split at isFinal
      · exact ended isFinal
      · exact nomatch isFinal
  · exact (List.mem_append.1 linked).elim left ended
  · split at linked
    · exact declared linked
    · exact nomatch linked

theorem returnNode_rebuilt (flat : draft.root.Flat) {node : Node} {decl : MethodDecl Node}
    (inside : node ∈ draft.root.descendants) (shape : node.shape = .method decl) :
    draft.returnNode localName (node.rebuilt (draft.returnNode localName)) =
      node.withShape (.method { decl with
        body := ReturnValue.body draft.notes (newIds draft node.id) node decl
          (plan draft.notes localName node decl) }) := by
  rw [flat.rebuilt_eq inside (by rw [shape]; rfl) fun _ => returnNode_of_family, returnNode]
  simp only [shape]

theorem flat_returnValues (flat : draft.root.Flat) (localName : String) :
    (draft.returnValues localName).1.root.Flat := by
  have whole : ∀ root : Node, root ∈ draft.root.descendants →
      (root.mapUp (draft.returnNode localName)).Flat := by
    intro root inside
    induction root using Node.induction with
    | step root ih =>
      rw [Node.mapUp_eq]
      by_cases isMethod : root.shape.family = .method
      · obtain ⟨decl, shape⟩ := (Shape.family_eq_method_iff _).1 isMethod
        have parts := flat root inside isMethod
        have relinked : Relinked (fun _ _ => True) decl.body (body draft.notes (newIds draft root.id) root
            decl (plan draft.notes localName root decl)) := body_relinked _ fun _ _ => trivial
        have none : ∀ part ∈ (draft.returnNode localName
            (root.rebuilt (draft.returnNode localName))).children, part.Methodless := by
          rw [returnNode_rebuilt flat inside shape]
          intro part isPart
          rcases List.mem_append.1 isPart with isParam | isBody
          · refine parts part ?_
            rw [Node.children, shape]
            exact List.mem_append_left _ isParam
          · obtain rfl := List.mem_singleton.1 isBody
            exact relinked.methodless (parts _ (Node.body_mem_children shape))
        exact .ofParts (fun _ => none) fun part isPart => .ofMethodless (none part isPart)
      · rw [returnNode_of_family (by rwa [Node.family_rebuilt])]
        refine .ofParts (fun absurd => ?_) fun part isPart => ?_
        · rw [Node.family_rebuilt] at absurd
          exact (isMethod absurd).elim
        · rw [Node.children_rebuilt] at isPart
          obtain ⟨old, among, rfl⟩ := List.mem_map.1 isPart
          exact ih old among (Node.mem_descendants_trans (Node.child_mem_descendants among) inside)
  exact whole draft.root draft.root.mem_descendants_self

/-- What holds of the links of a tree and of those that are made holds of the links of the new tree. -/
theorem linksIn_returnNode (flat : draft.root.Flat) (localName : String)
    {holds : NodeId → NodeId → Prop} (old : draft.root.LinksIn holds)
    (made : ∀ link ∈ (draft.plannedMethods localName).flatMap draft.linkReturn, holds link.1 link.2) :
    (draft.root.mapUp (draft.returnNode localName)).LinksIn holds := by
  refine old.mapUp (fun _ => id_returnNode) fun node inside rebuilt => ?_
  by_cases isMethod : node.shape.family = .method
  · obtain ⟨decl, shape⟩ := (Shape.family_eq_method_iff _).1 isMethod
    have isPlanned : ⟨node, decl, plan draft.notes localName node decl⟩ ∈
        draft.plannedMethods localName := by
      refine List.mem_filterMap.2 ⟨node, inside, ?_⟩
      simp [Node.methodDecl?, shape]
    have relinked : Relinked holds decl.body (body draft.notes (newIds draft node.id) node decl
        (plan draft.notes localName node decl)) :=
      body_relinked _ fun link isMade => made link (List.mem_flatMap.2 ⟨_, isPlanned, isMade⟩)
    have here := old.below inside
    obtain ⟨same, inner⟩ := relinked.linksIn (here.part (Node.body_mem_children shape)).2
    rw [returnNode_rebuilt flat inside shape]
    refine .ofParts fun part isPart => ?_
    rcases List.mem_append.1 isPart with isParam | isBody
    · refine here.part ?_
      rw [Node.children, shape]
      exact List.mem_append_left _ isParam
    · obtain rfl := List.mem_singleton.1 isBody
      rw [same]
      exact ⟨(here.part (Node.body_mem_children shape)).1, inner⟩
  · rw [returnNode_of_family (by rwa [Node.family_rebuilt])]
    exact rebuilt

theorem Tidy.linked_returnValues (tidy : draft.Tidy) (flat : draft.root.Flat)
    (linked : draft.root.Linked draft.parents) (localName : String) :
    (draft.returnValues localName).1.root.Linked (draft.returnValues localName).1.parents := by
  have small {source : NodeId} (known : source ∈ draft.root.descendants.map Node.id) :=
    tidy.small_ids source known
  refine linked.extend ?_ (tidy.small _ draft.root.mem_descendants_self) ?_ ?_ ?_
  · show (draft.root.mapUp (draft.returnNode localName)).id = draft.root.id
    rw [Node.mapUp_eq, id_returnNode, Node.id_rebuilt]
  · intro link listed
    obtain ⟨planned, isPlanned, made⟩ := List.mem_flatMap.1 listed
    obtain ⟨source, known, plane, first, last, named, -⟩ := mem_linkReturn isPlanned made
    rw [named]
    exact (draft.newId_bounds first last (small known)).1
  · intro part owner other listed listed'
    obtain ⟨planned, isPlanned, made⟩ := List.mem_flatMap.1 listed
    obtain ⟨planned', isPlanned', made'⟩ := List.mem_flatMap.1 listed'
    obtain ⟨source, known, plane, -, -, named, under⟩ := mem_linkReturn isPlanned made
    obtain ⟨source', known', plane', -, -, named', under'⟩ := mem_linkReturn isPlanned' made'
    obtain ⟨rfl, rfl⟩ := draft.newId_inj (small known) (small known') (named.symm.trans named')
    exact under.unique tidy.distinct under'
  · have old : draft.root.LinksIn fun part owner =>
        (part, owner) ∈ (draft.plannedMethods localName).flatMap draft.linkReturn ∨
          part.index < draft.fresh ∧ draft.parents.parent? part = some owner :=
      fun owner lies part isPart => .inr ⟨tidy.small part
        (Node.mem_descendants_trans (Node.child_mem_descendants isPart) lies),
        linked.parts owner lies part isPart⟩
    exact linksIn_returnNode flat localName old fun link made => .inl made

end Draft

end ScriptMigration
