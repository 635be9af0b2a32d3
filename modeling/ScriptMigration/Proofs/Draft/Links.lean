import ScriptMigration.Proofs.Draft.Migrating
import ScriptMigration.Proofs.Reshape.Accessors
import ScriptMigration.Proofs.Reshape.Hooks
import ScriptMigration.Proofs.Reshape.ReturnLinks

/-! The parents that are noted beside the tree of a draft. A text is read with the parents of all its
nodes noted, and each step of a migration notes those of the nodes that it makes or moves. So the noted
parents stay those of the tree, and the way up from a node leads through the nodes around it. -/
namespace ScriptMigration

open Node (LinksIn mem_links)

theorem parseModule_linked {text name : String} {module : Module}
    (parsed : parseModule text name = .ok module) : module.root.Linked module.parents := by
  obtain ⟨_, root, _, _, whole, parents⟩ := parseModule_reading parsed
  obtain ⟨f, adds, attached⟩ := Attachment.exists_attachComments root (lex text).comments
  have distinct : module.root.Distinct := (Draft.formed_of_parseModule parsed).distinct
  rw [whole, attached] at distinct ⊢
  have once : root.Distinct := (adds.ids_mapUp_of_none root).nodup_iff.1 distinct
  rw [parents]
  exact once.relink.mapUp_adds adds fun _ _ _ absurd => nomatch absurd

theorem SetterValue.linked_mapUp {root : Node} {links : ParentLinks} (linked : root.Linked links) :
    (root.mapUp dropParam).Linked links := by
  refine ⟨?_, linked.parts.mapUp dropParam_regroups.id fun old _ rebuilt => ?_⟩
  · rw [Node.mapUp_eq, dropParam_regroups.id, Node.id_rebuilt]
    exact linked.top
  generalize old.rebuilt dropParam = node at rebuilt
  rcases dropParam_cases node with ⟨same, -⟩ | ⟨decl, param, name, shape, -, -, same⟩
  · rwa [same]
  rw [same]
  refine .ofParts fun part isPart => ?_
  obtain rfl := List.mem_singleton.1 isPart
  obtain ⟨known, inner⟩ := rebuilt.part (Node.body_mem_children shape)
  refine ⟨?_, inner.mapInType (replace_adds name).id fun old _ below => ?_⟩
  · rw [Node.mapInType_eq, (replace_adds name).id]
    exact known
  · unfold replace
    split
    · exact .ofBare rfl
    · exact below

section Gathering

namespace Property

variable {draft : Draft}

theorem mem_madeLinks {type property : Node} (isMember : property ∈ type.children)
    (isNew : draft.fresh ≤ property.id.index) {link : NodeId × NodeId}
    (made : link = (property.id, type.id) ∨ link ∈ property.links) :
    link ∈ madeLinks draft.fresh type :=
  List.mem_flatMap.2 ⟨property, List.mem_filter.2 ⟨isMember, by simpa using isNew⟩,
    List.mem_cons.2 made⟩

end Property

open Property in
theorem Draft.Prepared.linked_gatherAccessors {draft : Draft} (prepared : draft.Prepared)
    (linked : draft.root.Linked draft.parents) :
    draft.gatherAccessors.1.root.Linked draft.gatherAccessors.1.parents := by
  have pass := gatherNode_isTypePass (draft.newId 1)
  have layers := prepared.asRead.layers
  have distinct := prepared.formed.distinct
  have keeps := fun (decl : TypeDecl Node) (bare : Node.Bare decl.members)
    (_ : (decl.members.map Node.id).Nodup) => typesBelow_gatherAll (draft.newId 1) [] bare
  have whole := prepared.gatherAccessors.formed.distinct
  refine whole.linkAll ?_ (fun link listed => ?_) ?_
  · rw [show draft.gatherAccessors.1.root.id = draft.root.id from pass.id_mapUp draft.root]
    exact linked.top
  · obtain ⟨type, isType, made⟩ := List.mem_flatMap.1 listed
    obtain ⟨property, among, made⟩ := List.mem_flatMap.1 made
    have lies := (Node.mem_typesBelow.1 isType).1
    have isMember := (List.mem_filter.1 among).1
    rcases List.mem_cons.1 made with rfl | inner
    · exact mem_links.2 ⟨type, lies, property, isMember, rfl⟩
    · exact Node.links_subset (Node.mem_descendants_trans (Node.child_mem_descendants isMember) lies)
        inner
  · refine pass.linksIn layers distinct keeps (linked.parts.mono fun _ _ => .inr) ?_
    intro type decl shape _ image members part isPart
    rcases mem_gatherAll isPart with member | ⟨source, name, later, -, rfl⟩
    · exact members part member
    · have isMember : gather (draft.newId 1 source) name later ∈
          (type.mapUp (gatherNode (draft.newId 1))).children := by
        rwa [Node.children, pass.shape_mapUp shape]
      have isNew : draft.fresh ≤ (gather (draft.newId 1 source) name later).id.index := by
        show draft.fresh ≤ 1 * draft.fresh + source.index
        omega
      have isType : (type.mapUp (gatherNode (draft.newId 1))).shape.isType := by
        rw [pass.shape_mapUp shape]
        rfl
      have made {link : NodeId × NodeId} (new : link = ((gather (draft.newId 1 source) name
          later).id, type.id) ∨ link ∈ (gather (draft.newId 1 source) name later).links) :=
        List.mem_flatMap.2 ⟨_, Node.mem_typesBelow.2 ⟨image, isType⟩,
          mem_madeLinks isMember isNew (by rwa [pass.id_mapUp])⟩
      exact ⟨.inl (made (.inl rfl)), (LinksIn.self _).mono fun _ _ new => .inl (made (.inr new))⟩

end Gathering

section Settling

namespace Lifecycle

variable {kind : MethodKind} {typeName : String} {members : List Node} {old new : Node}

def Takes (members : List Node) (id : NodeId) : Prop := ∃ kind ∈ kinds, ∃ target,
  target? kind members = some target ∧ mergedHooks kind members ≠ [] ∧ target.id = id

/-- A member after the hooks are settled: a procedure keeps its parameters and its body, and what is in
the body if it is none of those that take statements. -/
def Grows (taking : NodeId → Prop) (old new : Node) : Prop :=
  new = old ∨ new.id = old.id ∧ ∃ decl decl', old.shape = .method decl ∧ new.shape = .method decl' ∧
    decl'.params = decl.params ∧ decl'.body.id = decl.body.id ∧
    (taking old.id ∨ decl'.body.children = decl.body.children)

theorem Grows.trans {taking : NodeId → Prop} {middle : Node} (first : Grows taking old middle)
    (second : Grows taking middle new) : Grows taking old new := by
  rcases second with rfl | ⟨id, decl, last, shape, newShape, params, body, inner⟩
  · exact first
  rcases first with rfl | ⟨id', decl', other, oldShape, shape', params', body', inner'⟩
  · exact .inr ⟨id, decl, last, shape, newShape, params, body, inner⟩
  obtain rfl : decl = other := Shape.method.inj (shape.symm.trans shape')
  refine .inr ⟨id.trans id', decl', last, oldShape, newShape, params.trans params',
    body.trans body', ?_⟩
  rw [id'] at inner
  rcases inner, inner' with ⟨taken | same, taken' | same'⟩
  · exact .inl taken
  · exact .inl taken
  · exact .inl taken'
  · exact .inr (same.trans same')

theorem mem_settle {taking : NodeId → Prop} (orderly : Orderly members)
    (takes : ∀ target, target? kind members = some target → mergedHooks kind members ≠ [] →
      taking target.id) (listed : new ∈ settle kind typeName members) :
    ∃ old ∈ members, Grows taking old new := by
  cases found : target? kind members with
  | none =>
    rw [settle, found] at listed
    exact ⟨new, listed, .inl rfl⟩
  | some target =>
    rw [settle_eq kind typeName found] at listed
    obtain ⟨old, kept, rfl⟩ := List.mem_map.1 listed
    have inside := List.mem_of_mem_filter kept
    refine ⟨old, inside, ?_⟩
    unfold extendAt
    split
    · rename_i isTarget
      cases isMethod : old.methodDecl? with
      | none => exact .inl (by rw [extend, isMethod])
      | some decl =>
        have shape := Node.shape_of_methodDecl? isMethod
        obtain ⟨kind', name, extended, -⟩ := shape_extend kind typeName shape
          ((mergedHooks kind members).flatMap bodyStmts)
        refine .inr ⟨id_extend _ old, decl, _, shape, extended, rfl, rfl, ?_⟩
        by_cases none : mergedHooks kind members = []
        · refine .inr ?_
          rw [none, List.flatMap_nil, List.append_nil, stmts_body (orderly.own inside) shape]
          rfl
        · exact .inl (beq_iff_eq.1 isTarget ▸ takes target found none)
    · exact .inl rfl

theorem mem_settleAll (orderly : Orderly members) (listed : new ∈ settleAll typeName members) :
    ∃ old ∈ members, Grows (Takes members) old new := by
  rw [settleAll_eq] at listed
  have last : ∀ target, target? .destructor (settle .constructor typeName members) = some target →
      mergedHooks .destructor (settle .constructor typeName members) ≠ [] →
      Takes members target.id := by
    intro target found merges
    rw [target?_settle orderly.once rfl rfl (by decide)] at found
    rw [mergedHooks_settle orderly.once rfl rfl (by decide)] at merges
    exact ⟨.destructor, by decide, target, found, merges, rfl⟩
  have first : ∀ target, target? .constructor members = some target →
      mergedHooks .constructor members ≠ [] → Takes members target.id :=
    fun target found merges => ⟨.constructor, by decide, target, found, merges, rfl⟩
  obtain ⟨middle, among, second⟩ := mem_settle (settle_orderly .constructor typeName orderly) last
    listed
  obtain ⟨old, inside, grows⟩ := mem_settle orderly first among
  exact ⟨old, inside, grows.trans second⟩

theorem mem_takers {type : Node} {decl : TypeDecl Node} (shape : type.shape = .type decl)
    {id : NodeId} (takes : Takes (decl.members.map (Node.mapUp settleNode)) id) :
    id ∈ takers type := by
  obtain ⟨kind, among, image, found, merges, rfl⟩ := takes
  rw [target?_mapUp] at found
  obtain ⟨target, isTarget, rfl⟩ := Option.map_eq_some_iff.1 found
  rw [mergedHooks_mapUp, ne_eq, List.map_eq_nil_iff] at merges
  have isDecl : type.typeDecl? = some decl := by simp [Node.typeDecl?, shape]
  rw [takers, isDecl]
  refine List.mem_flatMap.2 ⟨kind, among, ?_⟩
  rw [if_neg (by simpa using merges), isTarget]
  simp [id_mapUp]

theorem mem_bodyLinks {taking : List NodeId} {type member : Node} {decl : MethodDecl Node}
    (isMember : member ∈ type.children) (taken : member.id ∈ taking)
    (shape : member.shape = .method decl) : decl.body.links ⊆ bodyLinks taking type := by
  intro link listed
  have isMethod : member.methodDecl? = some decl := by simp [Node.methodDecl?, shape]
  refine List.mem_flatMap.2 ⟨member, List.mem_filter.2 ⟨isMember, by simpa using taken⟩, ?_⟩
  rwa [isMethod]

theorem links_of_mem_bodyLinks {taking : List NodeId} {type : Node} {link : NodeId × NodeId}
    (listed : link ∈ bodyLinks taking type) : link ∈ type.links := by
  obtain ⟨member, among, noted⟩ := List.mem_flatMap.1 listed
  cases isMethod : member.methodDecl? with
  | none => simp [isMethod] at noted
  | some decl =>
    rw [isMethod] at noted
    refine Node.links_subset (Node.mem_descendants_of_child (List.mem_of_mem_filter among) ?_) noted
    exact Node.child_mem_descendants (Node.body_mem_children (Node.shape_of_methodDecl? isMethod))

end Lifecycle

open Lifecycle in
theorem Draft.Prepared.linked_settleHooks {draft : Draft} (prepared : draft.Prepared)
    (linked : draft.root.Linked draft.parents) :
    draft.settleHooks.1.root.Linked draft.settleHooks.1.parents := by
  have pass := settleNode_isTypePass
  have formed := prepared.formed
  refine prepared.settleHooks.formed.distinct.linkAll ?_ (fun link listed => ?_) ?_
  · rw [show draft.settleHooks.1.root.id = draft.root.id from pass.id_mapUp draft.root]
    exact linked.top
  · obtain ⟨type, isType, noted⟩ := List.mem_flatMap.1 listed
    exact Node.links_subset (Node.mem_typesBelow.1 isType).1 (links_of_mem_bodyLinks noted)
  · refine pass.linksIn prepared.asRead.layers formed.distinct
      (fun decl bare once => typesBelow_settleAll decl.name bare once)
      (linked.parts.mono fun _ _ => .inr) ?_
    intro type decl shape lies image members part isPart
    have orderly : Orderly (decl.members.map (Node.mapUp settleNode)) := by
      have orderly := formed.orderly_rebuilt lies
      rwa [Node.children, Node.shape_rebuilt_of_type shape] at orderly
    obtain ⟨old, among, grows⟩ := mem_settleAll orderly isPart
    obtain ⟨known, inner⟩ := members old among
    rcases grows with rfl | ⟨id, method, method', isMethod, becomes, params, body, inside⟩
    · exact ⟨known, inner⟩
    rw [id]
    refine ⟨known, .ofParts fun below isBelow => ?_⟩
    rw [Node.children, becomes] at isBelow
    rw [id]
    rcases List.mem_append.1 isBelow with isParam | isBody
    · refine inner.part ?_
      rw [Node.children, isMethod]
      exact List.mem_append_left _ (params ▸ isParam)
    obtain rfl := List.mem_singleton.1 isBody
    obtain ⟨bodyKnown, bodyLinks⟩ := inner.part (Node.body_mem_children isMethod)
    rw [body]
    refine ⟨bodyKnown, ?_⟩
    rcases inside with taken | same
    · have isTaking : part.id ∈ draft.root.typesBelow.flatMap takers :=
        List.mem_flatMap.2 ⟨type, Node.mem_typesBelow.2 ⟨lies, by rw [shape]; rfl⟩,
          id ▸ mem_takers shape taken⟩
      have isMember : part ∈ (type.mapUp settleNode).children := by
        rwa [Node.children, pass.shape_mapUp shape]
      have isType : (type.mapUp settleNode).shape.isType := by
        rw [pass.shape_mapUp shape]
        rfl
      exact (LinksIn.self _).mono fun _ _ noted => .inl (List.mem_flatMap.2
        ⟨_, Node.mem_typesBelow.2 ⟨image, isType⟩, mem_bodyLinks isMember isTaking becomes noted⟩)
    · refine .ofParts fun stmt isStmt => ?_
      rw [body]
      exact bodyLinks.part (same ▸ isStmt)

end Settling

theorem Draft.Prepared.linked {draft : Draft} (prepared : draft.Prepared) :
    draft.root.Linked draft.parents := by
  induction prepared with
  | read parsed => exact parseModule_linked parsed
  | dropValueParams _ ih => exact SetterValue.linked_mapUp ih
  | gatherAccessors prepared ih => exact prepared.linked_gatherAccessors ih
  | settleHooks prepared ih => exact prepared.linked_settleHooks ih

section Resolving

variable {around : Surroundings} {roles : NodeId → Role} {state : ResolutionState} {bound : Nat}

/-- The parents of the tree are noted, and of the variables that wait for a place in it. -/
structure ResolutionState.Links (state : ResolutionState) : Prop where
  linked : state.root.Linked state.parents
  waiting : ∀ entry ∈ state.implicit, state.parents.parent? entry.decl.id = some entry.block

theorem Touches.links {allowed : Descriptor → Prop} {place : Place} {after : ResolutionState}
    (touches : Touches around roles allowed place state after) (static : around.Fits roles bound)
    (fits : state.Fits around roles) (links : state.Links) : after.Links := by
  induction touches with
  | refl => exact links
  | @tail before _ earlier touch ih =>
    have fits : before.Fits around roles := Touches.fits earlier static fits
    cases touch with
    | declare _ taken =>
      obtain ⟨_, decl, _, _, _, rfl⟩ := ResolutionState.declare_eq_some taken
      have unused {id : NodeId} (small : id.index < before.fresh) : id ≠ ⟨before.fresh⟩ := by
        rintro rfl
        exact Nat.lt_irrefl _ small
      refine ⟨ih.linked.link (fun node inside => unused (fits.tree.small node inside)) _, ?_⟩
      intro entry listed
      rw [ParentLinks.parent?_link]
      rcases List.mem_cons.1 listed with rfl | old
      · exact if_pos rfl
      · rw [if_neg (unused (fits.implicit entry old).1.small).symm]
        exact ih.waiting entry old
    | record | decide | bind | judge | copy | rise => exact ⟨ih.linked, ih.waiting⟩

namespace ResolutionState.Links

theorem settleImplicit (links : state.Links) (fits : state.Fits around roles) :
    state.settleImplicit.root.Linked state.settleImplicit.parents := by
  rw [settleImplicit_eq]
  refine links.linked.mapUp_adds
    (declareIn_adds fun entry listed => (fits.implicit entry listed).2.2.1) fun old _ leaf found => ?_
  obtain ⟨entry, listed, rfl, block⟩ := mem_leavesOf found
  rw [links.waiting entry listed, block, Node.id_rebuilt]

/-- A sweep links the variables that it declares to the bodies that they are put into. -/
theorem sweep (linked : state.root.Linked state.parents) (fits : state.Fits around roles)
    (static : around.Fits roles bound) (older : bound ≤ state.fresh) (clear : state.implicit = [])
    (final : Bool) : (around.sweep final state).root.Linked (around.sweep final state).parents := by
  have started := fits.record state.cache state.warnings state.obligations false
  have walked := started.walk final static older fun _ listed => listed
  refine settleImplicit ?_ walked.1
  refine started.walk_induction (motive := Links) final static older (fun _ listed => listed) ?_ ?_
  · refine ⟨linked, fun entry listed => ?_⟩
    rw [clear] at listed
    exact nomatch listed
  · intro before place beforeFits olderBefore sameRoot listed links
    exact Touches.links (beforeFits.visit_touches final static olderBefore (sameRoot ▸ listed))
      static beforeFits links

end ResolutionState.Links

theorem Surroundings.linked_settle {draft : Draft} (linked : state.root.Linked state.parents)
    (fits : state.Fits around roles) :
    (around.settle draft state).root.Linked (around.settle draft state).parents := by
  have marks := Obligation.apply_adds state.obligations
  have pays : Node.Adds (around.payFields (around.undeferred draft state)) _ := payFields_adds
  have marked : (around.undeferred draft state).root.Linked (around.undeferred draft state).parents :=
    linked.mapUp_adds marks fun _ _ _ absurd => nomatch absurd
  have before : Draft.Tidy { draft with root := state.root, fresh := state.fresh } :=
    ⟨fits.tree.distinct, fits.tree.small⟩
  have tidy : (around.undeferred draft state).Tidy :=
    before.regroupSame marks.regroups fun _ _ => trivial
  have paid : (around.payObligations (around.undeferred draft state)).root.Linked
      (around.payObligations (around.undeferred draft state)).parents := by
    refine tidy.payObligations.distinct.linkAll ?_ (fun link listed => ?_) ?_
    · rw [show (around.payObligations (around.undeferred draft state)).root.id = _ from
        pays.id_mapUp _]
      exact marked.top
    · obtain ⟨type, isType, owed⟩ := List.mem_flatMap.1 listed
      obtain ⟨⟨id, field⟩, new, rfl⟩ := List.mem_map.1 owed
      refine mem_links.2 ⟨_, pays.mem_descendants_mapUp.2
        ⟨type, (Node.mem_typesBelow.1 isType).1, .inl rfl⟩, ?_⟩
      rw [pays.children_mapUp, pays.id_mapUp]
      refine ⟨_, List.mem_append_left _ (List.mem_map.2 ⟨(id, field), ?_, rfl⟩), rfl⟩
      rwa [newFields_rebuilt]
    · refine (marked.parts.mono fun _ _ => .inr).mapUp_adds pays fun old lies leaf found => .inl ?_
      obtain ⟨entry, new, rfl⟩ := List.mem_map.1 found
      rw [newFields_rebuilt] at new
      have isType : old.shape.isType := by
        unfold newFields at new
        split at new
        · rename_i decl isDecl
          rw [Node.shape_of_typeDecl? isDecl]
          rfl
        · exact nomatch new
      exact List.mem_flatMap.2 ⟨old, Node.mem_typesBelow.2 ⟨lies, isType⟩,
        List.mem_map.2 ⟨entry, new, rfl⟩⟩
  exact paid.mapUp_adds Node.withVisibility_adds fun _ _ _ absurd => nomatch absurd

theorem Draft.Prepared.linked_resolveDraft {draft resolved : Draft} {symbols : SymbolTable}
    {options : MigrationOptions} {store : ScriptStore} {id : ScriptId} {script : Script}
    (prepared : draft.Prepared) (cache : MemberMemo)
    (isResolved : ((Surroundings.forScript symbols options store id script draft).resolveDraft draft
      cache).draft = resolved) : resolved.root.Linked resolved.parents := by
  obtain ⟨-, static, before, underway, -, linked, rfl⟩ := prepared.resolveDraft_induction cache rfl
    isResolved (motive := fun state => state.root.Linked state.parents) prepared.linked
    fun final static _ underway linked => ResolutionState.Links.sweep linked underway.fits static
      underway.older underway.clear final
  exact Surroundings.linked_settle linked (underway.sweep static true).fits

end Resolving

namespace Draft.Migrating

variable {draft : Draft}

theorem linked_prune {root : Node} {links : ParentLinks} {f : Node → Node}
    (holds : root.Linked links ∧ root.Flat)
    (cuts : ∀ node, f node = node ∨ (f node).id = node.id ∧ (f node).children = []) :
    (root.mapUp f).Linked links ∧ (root.mapUp f).Flat := by
  refine ⟨holds.1.mapUp (fun node => ?_) fun node => ?_,
    (holds.2.prune fun node => (cuts node).imp_right And.right).1⟩
  · rcases cuts node with same | ⟨id, -⟩
    · rw [same]
    · exact id
  · rcases cuts node with same | ⟨-, bare⟩
    · rw [same]
      exact List.Subset.refl _
    · rw [bare]
      exact List.nil_subset _

theorem linked_markStatic (static : Bool) (holds : draft.root.Linked draft.parents ∧ draft.root.Flat) :
    (draft.markStatic static).root.Linked (draft.markStatic static).parents ∧
      (draft.markStatic static).root.Flat := by
  unfold Draft.markStatic
  split
  · rename_i decl shape
    have parts : (draft.root.withShape (.type { decl with
        marks := { decl.marks with static } })).children = draft.root.children := by
      rw [Node.children, Node.children, shape]
      rfl
    have isType : (draft.root.withShape (.type { decl with
        marks := { decl.marks with static } })).shape.family = .type := rfl
    refine ⟨⟨holds.1.top, .ofParts fun part isPart => ?_⟩,
      .ofParts (fun isMethod => absurd (isType.symm.trans isMethod) (by decide)) fun part isPart => ?_⟩
    · exact holds.1.parts.part (parts ▸ isPart)
    · exact holds.2.part (parts ▸ isPart)
  · exact holds

theorem linked (migrating : draft.Migrating) : draft.root.Linked draft.parents ∧ draft.root.Flat := by
  induction migrating with
  | prepared prepared => exact ⟨prepared.linked, .ofLayers prepared.asRead.layers⟩
  | @resolved store symbols options cache id draft after read prepared found =>
    obtain ⟨script, listed, isRead⟩ := ScriptStore.exists_script read
    rw [(ScriptStore.resolve_eq symbols options cache listed isRead).1,
      ScriptStore.draft?_setDraft listed] at found
    obtain rfl := Option.some.inj found
    exact ⟨prepared.linked_resolveDraft cache rfl,
      .ofLayers (prepared.resolveDraft_grounded cache rfl).1.layers⟩
  | returnValues localName migrating ih =>
    exact ⟨migrating.tidy.linked_returnValues ih.2 ih.1 localName, flat_returnValues ih.2 localName⟩
  | markStatic static _ ih => exact linked_markStatic static ih
  | typeCreations symbols _ ih =>
    refine linked_prune ih fun node => ?_
    split
    · exact .inr ⟨rfl, rfl⟩
    · exact .inl rfl
  | moveTexts symbols options _ ih =>
    refine linked_prune ih fun node => ?_
    dsimp only
    split
    · exact .inr ⟨rfl, rfl⟩
    · exact .inl rfl

/-- After every step of a migration the nodes of a draft form a tree of which all parents are noted, so the
noted parents tell the places of all nodes. -/
theorem root_isTree (migrating : draft.Migrating) : draft.root.IsTree draft.parents ∧
    draft.toModule.linkedPlaces = draft.root.places :=
  ⟨migrating.linked.1.isTree migrating.tidy.distinct,
    draft.toModule.linkedPlaces_eq migrating.linked.1 migrating.tidy.distinct⟩

/-- A function that gives back its value at an exit and at its end, after all steps. -/
theorem root_isTree_function : ∃ module resolved made,
    parseModule "Function F(n)\n  If n = 0 Then Exit Function\n  total = n\n  F = total\nEnd Function"
      "Sum" = .ok module ∧
    (((ScriptStore.alone module).setDraft ⟨0⟩ (Draft.ofModule module).reshape).resolve .empty {}
      (.withCapacity 8) ⟨0⟩).store.draft? ⟨0⟩ = some resolved ∧
    made = ((((resolved.returnValues "result").1.markStatic true).typeCreations .empty).1.moveTexts
      .empty {}).1 ∧ made.root.IsTree made.parents ∧ made.toModule.linkedPlaces = made.root.places := by
  obtain ⟨module, parsed⟩ := exists_module (by decide +kernel : (parseModule
    "Function F(n)\n  If n = 0 Then Exit Function\n  total = n\n  F = total\nEnd Function"
    "Sum").toOption.isSome)
  let store := (ScriptStore.alone module).setDraft ⟨0⟩ (Draft.ofModule module).reshape
  have read : store.draft? ⟨0⟩ = some (Draft.ofModule module).reshape :=
    ScriptStore.draft?_setDraft rfl
  have prepared := (Draft.Prepared.read parsed).reshape
  obtain ⟨script, listed, isRead⟩ := ScriptStore.exists_script read
  have found := (ScriptStore.resolve_eq .empty {} (.withCapacity 8) listed isRead).1 ▸
    ScriptStore.draft?_setDraft listed
  exact ⟨module, _, _, parsed, found, rfl, root_isTree ((((Migrating.resolved read prepared
    found).returnValues "result").markStatic true).typeCreations .empty |>.moveTexts .empty {})⟩

end Draft.Migrating

end ScriptMigration
