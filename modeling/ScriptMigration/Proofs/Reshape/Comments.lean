import ScriptMigration.Proofs.Grammar.Comments
import ScriptMigration.Proofs.Reshape.Hooks

/-! What becomes of comments when the members of types are regrouped. No node gets the comments of
another, so the comments of a tree are told from the identities of its nodes: where a pass keeps the
identities it keeps the comments, and where it takes nodes out of the tree their comments go with them.
This is what happens to hooks that are merged into another procedure. -/
namespace ScriptMigration

namespace Node

def allComments (node : Node) : List Comment := node.descendants.flatMap (·.info.comments)

variable {P : NodeInfo → Shape.Family → Prop}

theorem labels_steady (P : NodeInfo → Shape.Family → Prop) :
    Steady fun node => P node.info node.shape.family := by
  intro g node _ holds
  rw [family_withParts]
  exact holds

def CommentedBy (known : NodeId → List Comment) (root : Node) : Prop :=
  ∀ node ∈ root.descendants, node.info.comments = known node.id

theorem CommentedBy.allComments_eq {known : NodeId → List Comment} {root : Node}
    (commented : root.CommentedBy known) :
    root.allComments = (root.descendants.map Node.id).flatMap known := by
  rw [allComments, List.flatMap_map]
  exact List.flatMap_congr commented

theorem exists_commentedBy {root : Node} (distinct : root.Distinct) :
    ∃ known, root.CommentedBy known ∧ ∀ id ∉ root.descendants.map Node.id, known id = [] := by
  refine ⟨fun id => ((root.descendants.find? (·.id == id)).map (·.info.comments)).getD [],
    fun node inside => ?_, fun id absent => ?_⟩ <;> dsimp only
  · cases found : root.descendants.find? (·.id == node.id) with
    | none => exact absurd (List.find?_eq_none.1 found node inside) (by simp)
    | some other =>
      have same : other.id = node.id := by simpa using List.find?_some found
      rw [← List.inj_on_of_nodup_map distinct (List.mem_of_find?_eq_some found) inside same]
      rfl
  · have none : root.descendants.find? (·.id == id) = none := List.find?_eq_none.2
      fun node inside named => absent (List.mem_map.2 ⟨node, inside, by simpa using named⟩)
    rw [none]
    rfl

end Node

namespace SetterValue

open Node (idsBelow)

variable {P : NodeInfo → Shape.Family → Prop}

theorem replace_labels (name : String) {node : Node} (holds : P node.info node.shape.family) :
    P (replace name node).info (replace name node).shape.family := by
  rw [(replace_adds name).family]
  unfold replace
  split <;> exact holds

theorem dropParam_labels (node : Node)
    (holds : ∀ below ∈ node.descendants, P below.info below.shape.family) :
    ∀ below ∈ (dropParam node).descendants, P below.info below.shape.family := by
  rcases dropParam_cases node with ⟨same, -⟩ | ⟨decl, param, name, shape, -, -, same⟩
  · rwa [same]
  · have isPart := Node.body_mem_children shape
    have here := holds node node.mem_descendants_self
    rw [same]
    refine Node.forall_of_parts ?_ fun part among => ?_
    · rw [shape] at here
      exact here
    · obtain rfl := List.mem_singleton.1 among
      exact (Node.labels_steady P).mapInType (replace_adds name) (fun _ => replace_labels name)
        fun below lies => holds below (Node.mem_descendants_of_child isPart lies)

theorem mem_lostParams {old : Node} (regular : old.Regular) {id : NodeId}
    (lost : id ∈ idsBelow (lostParams (old.rebuilt dropParam))) :
    ∃ param ∈ old.children, param.shape.family = .param ∧ id ∈ param.descendants.map Node.id := by
  rcases dropParam_cases (old.rebuilt dropParam) with
    ⟨-, none⟩ | ⟨decl, image, name, shape, only, isLost, -⟩
  · rw [none] at lost
    exact nomatch lost
  · have isMethod : (old.rebuilt dropParam).methodDecl? = some decl := by
      rw [Node.methodDecl?, shape]
    rw [Node.methodDecl?_rebuilt] at isMethod
    obtain ⟨before, isBefore, rfl⟩ := Option.map_eq_some_iff.1 isMethod
    obtain ⟨param, params, rfl⟩ := List.map_eq_singleton_iff.1 only
    have oldShape := Node.shape_of_methodDecl? isBefore
    have perm := dropParam_regroups.ids_mapUp fun below (_ : below ∈ param.descendants) => trivial
    rw [isLost, idsBelow, List.flatMap_singleton] at lost
    refine ⟨param, ?_, regular.parts (.param, param) ?_, ?_⟩
    · rw [Node.children, oldShape, Shape.children, params]
      exact List.mem_cons_self
    · rw [oldShape, Shape.demands, params]
      exact List.mem_cons_self
    · have among := perm.subset (List.mem_append_left _ lost)
      rwa [List.flatMap_eq_nil_iff.2 fun _ _ => rfl, List.append_nil] at among

end SetterValue

namespace Property

variable {P : NodeInfo → Shape.Family → Prop}

theorem gatherNode_labels {newId : NodeId → NodeId}
    (made : ∀ source line, P { id := newId source, line, lastLine := line } .property) (node : Node)
    (holds : ∀ below ∈ node.descendants, P below.info below.shape.family) :
    ∀ below ∈ (gatherNode newId node).descendants, P below.info below.shape.family := by
  rcases node with ⟨info, shape⟩
  cases shape with
  | type decl =>
    have inner {member : Node} (isMember : member ∈ decl.members) :
        ∀ below ∈ member.descendants, P below.info below.shape.family :=
      fun below lies => holds below (Node.mem_descendants_of_child isMember lies)
    have here := holds (.mk info (.type decl)) (Node.mem_descendants_self _)
    refine Node.forall_of_parts here fun part isPart => ?_
    rcases mem_gatherAll isPart with isMember | ⟨source, name, later, among, rfl⟩
    · exact inner isMember
    · refine Node.forall_of_parts (made source _) fun accessor isAccessor => ?_
      exact inner (among (mem_children_gather isAccessor).1)
  | _ => exact holds

end Property

namespace Lifecycle

variable {P : NodeInfo → Prop} {kind : MethodKind} {typeName : String} {members : List Node}

theorem extend_infos {member : Node} {stmts : List Node}
    (holds : ∀ below ∈ member.descendants, P below.info)
    (added : ∀ stmt ∈ stmts, ∀ below ∈ stmt.descendants, P below.info) :
    ∀ below ∈ (extend kind typeName stmts member).descendants, P below.info := by
  cases isMethod : member.methodDecl? with
  | none => rwa [extend, isMethod]
  | some decl =>
    have shape := Node.shape_of_methodDecl? isMethod
    obtain ⟨kind', name, extended, -⟩ := shape_extend kind typeName shape stmts
    have inner {part : Node} (isPart : part ∈ decl.params ++ [decl.body]) :
        ∀ below ∈ part.descendants, P below.info := by
      refine fun below lies => holds below (Node.mem_descendants_of_child ?_ lies)
      rwa [Node.children, shape]
    have same : (extend kind typeName stmts member).info = member.info := by
      rw [extend, isMethod]
      dsimp only
      split <;> rfl
    refine Node.forall_of_parts (same ▸ holds member member.mem_descendants_self) fun part isPart => ?_
    rw [Node.children, extended] at isPart
    rcases List.mem_append.1 isPart with isParam | isBody
    · exact inner (List.mem_append_left _ isParam)
    · have ofBody := inner (List.mem_append_right decl.params (List.mem_singleton.2 rfl))
      obtain rfl := List.mem_singleton.1 isBody
      refine Node.forall_of_parts (ofBody decl.body decl.body.mem_descendants_self :)
        fun stmt isStmt => ?_
      rcases List.mem_append.1 isStmt with old | new
      · exact fun below lies => ofBody below
          (Node.mem_descendants_of_child (Node.mem_children_of_stmts old) lies)
      · exact added stmt new

theorem bodyStmts_infos {member : Node} (holds : ∀ below ∈ member.descendants, P below.info) :
    ∀ stmt ∈ bodyStmts member, ∀ below ∈ stmt.descendants, P below.info := by
  intro stmt isStmt below lies
  obtain ⟨decl, _, isBody, isStmt⟩ := exists_body isStmt
  exact holds below (Node.mem_descendants_of_child isBody
    (Node.mem_descendants_of_child (Node.mem_children_of_stmts isStmt) lies))

theorem settle_infos (holds : ∀ member ∈ members, ∀ below ∈ member.descendants, P below.info) :
    ∀ member ∈ settle kind typeName members, ∀ below ∈ member.descendants, P below.info := by
  cases found : target? kind members with
  | none => rwa [settle, found]
  | some target =>
    rw [settle_eq kind typeName found]
    intro new listed
    obtain ⟨old, remains, rfl⟩ := List.mem_map.1 listed
    have inside := List.mem_of_mem_filter remains
    unfold extendAt
    split
    · refine extend_infos (holds old inside) fun stmt isStmt => ?_
      obtain ⟨hook, merged, inner⟩ := List.mem_flatMap.1 isStmt
      rw [mergedHooks_of_target? found] at merged
      exact bodyStmts_infos
        (holds hook (List.mem_of_mem_filter (List.mem_of_mem_filter merged))) stmt inner
    · exact holds old inside

theorem settleNode_infos (P : NodeInfo → Prop) (node : Node)
    (holds : ∀ below ∈ node.descendants, P below.info) :
    ∀ below ∈ (settleNode node).descendants, P below.info := by
  rcases node with ⟨info, shape⟩
  cases shape with
  | type decl =>
    have first : ∀ member ∈ decl.members, ∀ below ∈ member.descendants, P below.info :=
      fun member isMember below lies => holds below (Node.mem_descendants_of_child isMember lies)
    have here := holds (.mk info (.type decl)) (Node.mem_descendants_self _)
    exact Node.forall_of_parts here (settle_infos (settle_infos first))
  | _ => exact holds

theorem flatMap_dropped (nodes : List Node) :
    (nodes.filter (·.shape.isType)).flatMap dropped = nodes.flatMap dropped := by
  induction nodes with
  | nil => rfl
  | cons node rest ih =>
    cases isType : node.shape.isType with
    | false =>
      have none : dropped node = [] := by
        cases found : node.typeDecl? with
        | none => rw [dropped, found]
        | some decl =>
          rw [Node.shape_of_typeDecl? found] at isType
          cases isType
      rw [List.filter_cons_of_neg (by simp [isType]), ih, List.flatMap_cons, none, List.nil_append]
    | true => rw [List.filter_cons_of_pos (by simp [isType]), List.flatMap_cons, ih,
        List.flatMap_cons]

end Lifecycle

namespace Draft

open Lifecycle (dropped lostHooks shell)

variable {draft : Draft} {known : NodeId → List Comment}

/-- The comments of a draft are known by identity. Only types, fields and procedures have any, and no
node that is still to be made. -/
structure Recalls (known : NodeId → List Comment) (draft : Draft) : Prop where
  commented : draft.root.CommentedBy known
  declared : ∀ node ∈ draft.root.descendants, node.info.comments ≠ [] →
    node.shape.family = .type ∨ node.shape.family = .field ∨ node.shape.family = .method
  new : ∀ id : NodeId, draft.fresh ≤ id.index → known id = []

theorem recalls_ofModule {text name : String} {module : Module}
    (parsed : parseModule text name = .ok module) : ∃ known, (ofModule module).Recalls known := by
  have original := parseModule_original parsed
  obtain ⟨known, commented, absent⟩ := Node.exists_commentedBy original.distinct
  refine ⟨known, commented, fun node inside has => ?_, fun id large => absent id fun listed => ?_⟩
  · obtain ⟨_, attached, commented⟩ := exists_attached parsed
    rw [← attached] at commented
    rcases commented.declared node inside has with isType | ⟨type, isType, decl, shape, listed⟩
    · rw [Shape.isType_eq, beq_iff_eq] at isType
      exact .inl isType
    · exact original.family_member isType shape listed
  · exact Nat.not_lt.2 large ((formed_of_parseModule parsed).toTidy.small_ids id listed)

namespace Recalls

variable (recalls : draft.Recalls known)

include recalls

theorem known_param {param : Node} (inside : param ∈ draft.root.descendants)
    (layers : draft.root.InLayers) (family : param.shape.family = .param) {id : NodeId}
    (listed : id ∈ param.descendants.map Node.id) : known id = [] := by
  obtain ⟨node, lies, rfl⟩ := List.mem_map.1 listed
  have below := Node.mem_descendants_trans lies inside
  rw [← recalls.commented node below]
  by_contra has
  have declared := recalls.declared node below has
  rcases Node.mem_descendants_cases lies with rfl | ⟨part, isPart, deeper⟩
  · simp [family] at declared
  · have held := (layers param inside).parts part isPart
    have partInside := Node.mem_descendants_trans (Node.child_mem_descendants isPart) inside
    have inner : part.shape.family.isInner := by
      rw [family] at held
      cases isFamily : part.shape.family <;> simp_all [Shape.Family.holds, Shape.Family.isInner]
    have inner := (layers.below partInside).isInner_below inner node deeper
    rcases declared with isType | isField | isMethod <;> simp_all [Shape.Family.isInner]

theorem dropValueParams (formed : draft.Formed) (layers : draft.root.InLayers) :
    draft.dropValueParams.1.Recalls known ∧
      draft.dropValueParams.1.root.allComments.Perm draft.root.allComments := by
  have labels (P : NodeInfo → Shape.Family → Prop)
      (holds : ∀ node ∈ draft.root.descendants, P node.info node.shape.family) :
      ∀ node ∈ draft.dropValueParams.1.root.descendants, P node.info node.shape.family :=
    (Node.labels_steady P).mapUp SetterValue.dropParam_family
      (fun old _ => SetterValue.dropParam_labels (old.rebuilt SetterValue.dropParam)) holds
  have commented : draft.dropValueParams.1.root.CommentedBy known :=
    labels (fun info _ => info.comments = known info.id) recalls.commented
  refine ⟨⟨commented, labels (fun info family => info.comments ≠ [] →
    family = .type ∨ family = .field ∨ family = .method) recalls.declared, recalls.new⟩, ?_⟩
  have perm := (SetterValue.dropParam_regroups.ids_mapUp
    fun old (_ : old ∈ draft.root.descendants) => trivial).flatMap_right known
  have lost : (draft.root.descendants.flatMap fun old => (Node.idsBelow ∘ SetterValue.lostParams)
      (old.rebuilt SetterValue.dropParam)).flatMap known = [] := by
    refine List.flatMap_eq_nil_iff.2 fun id listed => ?_
    obtain ⟨old, inside, isLost⟩ := List.mem_flatMap.1 listed
    obtain ⟨param, isPart, family, among⟩ :=
      SetterValue.mem_lostParams (formed.regular old inside) isLost
    exact recalls.known_param (Node.mem_descendants_trans (Node.child_mem_descendants isPart) inside)
      layers family among
  rw [commented.allComments_eq, recalls.commented.allComments_eq]
  rwa [List.flatMap_append, List.flatMap_append, lost, List.append_nil,
    List.flatMap_eq_nil_iff.2 fun _ _ => rfl, List.flatMap_nil, List.append_nil] at perm

theorem gatherAccessors : draft.gatherAccessors.1.Recalls known ∧
    draft.gatherAccessors.1.root.allComments.Perm draft.root.allComments := by
  have new (source : NodeId) : known (draft.newId 1 source) = [] := by
    refine recalls.new _ ?_
    simp only [newId]
    omega
  have labels (P : NodeInfo → Shape.Family → Prop)
      (made : ∀ source line, P { id := draft.newId 1 source, line, lastLine := line } .property)
      (holds : ∀ node ∈ draft.root.descendants, P node.info node.shape.family) :
      ∀ node ∈ draft.gatherAccessors.1.root.descendants, P node.info node.shape.family :=
    (Node.labels_steady P).mapUp (Property.gatherNode_family _)
      (fun old _ => Property.gatherNode_labels made (old.rebuilt (Property.gatherNode _))) holds
  have commented : draft.gatherAccessors.1.root.CommentedBy known :=
    labels (fun info _ => info.comments = known info.id) (fun source _ => (new source).symm)
      recalls.commented
  have declared := labels (fun info family => info.comments ≠ [] →
    family = .type ∨ family = .field ∨ family = .method) (fun _ _ none => absurd rfl none)
    recalls.declared
  refine ⟨⟨commented, declared, fun id large =>
    recalls.new id (Nat.le_trans (Nat.le_mul_of_pos_left _ (Nat.succ_pos 1)) large)⟩, ?_⟩
  have perm := ((Property.gatherNode_regroups (draft.newId 1)).ids_mapUp
    fun old (_ : old ∈ draft.root.descendants) => trivial).flatMap_right known
  have gained : (draft.root.descendants.flatMap fun old =>
      (Property.led (old.rebuilt (Property.gatherNode (draft.newId 1)))).map fun member =>
        draft.newId 1 member.id).flatMap known = [] := by
    refine List.flatMap_eq_nil_iff.2 fun id listed => ?_
    obtain ⟨old, -, made⟩ := List.mem_flatMap.1 listed
    obtain ⟨member, -, rfl⟩ := List.mem_map.1 made
    exact new member.id
  rw [commented.allComments_eq, recalls.commented.allComments_eq]
  rwa [List.flatMap_append, List.flatMap_append, gained, List.append_nil,
    List.flatMap_eq_nil_iff.2 fun _ _ => rfl, List.flatMap_nil, List.append_nil] at perm

theorem known_lostHooks (formed : draft.Formed) {type : Node}
    (inside : type ∈ draft.root.descendants) : (lostHooks type).flatMap known =
      (dropped type).flatMap (·.node.info.comments) := by
  cases isType : type.typeDecl? with
  | none => simp [lostHooks, dropped, isType]
  | some decl =>
    have shape := Node.shape_of_typeDecl? isType
    have each (kind : MethodKind) : ∀ hook ∈ Lifecycle.mergedHooks kind decl.members,
        (shell hook).flatMap known = (Lifecycle.emptied hook).info.comments := by
      intro hook merged
      have isHook : Lifecycle.isHook kind hook ∧ hook ∈ decl.members := by
        unfold Lifecycle.mergedHooks at merged
        split at merged
        · cases merged
        · obtain ⟨listed, is⟩ := List.mem_filter.1 merged
          exact ⟨(Bool.and_eq_true_iff.1 is).1, listed⟩
      obtain ⟨isHook, listed⟩ := isHook
      obtain ⟨method, _, isMethod, -⟩ := Lifecycle.isHook_cases isHook
      have hookInside : hook ∈ draft.root.descendants := by
        refine Node.mem_descendants_trans (Node.child_mem_descendants ?_) inside
        rwa [Node.children, shape]
      have bodyInside := Node.mem_descendants_trans
        (Node.child_mem_descendants (Node.body_mem_children isMethod)) hookInside
      have isBlock := (formed.regular hook hookInside).isBlock isMethod
      have noComment : method.body.info.comments = [] := by
        by_contra has
        simpa [isBlock] using recalls.declared method.body bodyInside has
      have found : hook.methodDecl? = some method := by rw [Node.methodDecl?, isMethod]
      have same : (Lifecycle.emptied hook).info = hook.info := by
        rw [Lifecycle.emptied, found]
        rfl
      simp [shell, found, same, ← recalls.commented hook hookInside,
        ← recalls.commented method.body bodyInside, noComment]
    simp only [lostHooks, dropped, isType, Option.map_some, Option.getD_some, List.flatMap_assoc,
      List.flatMap_map]
    exact List.flatMap_congr fun kind _ => List.flatMap_congr (each kind)

theorem settleHooks (formed : draft.Formed) :
    (draft.settleHooks.1.root.allComments ++
      (draft.root.typesBelow.flatMap dropped).flatMap (·.node.info.comments)).Perm
        draft.root.allComments := by
  let recalled (info : NodeInfo) : Prop := info.comments = known info.id
  have commented : draft.settleHooks.1.root.CommentedBy known :=
    (Node.labels_steady fun info _ => recalled info).mapUp Lifecycle.settleNode_family
      (fun old _ => Lifecycle.settleNode_infos recalled (old.rebuilt Lifecycle.settleNode))
      recalls.commented
  have perm := (Lifecycle.settleNode_regroups.ids_mapUp
    fun old lies => formed.orderly_rebuilt lies).flatMap_right known
  have lost : (draft.root.descendants.flatMap fun old =>
      lostHooks (old.rebuilt Lifecycle.settleNode)).flatMap known =
      (draft.root.typesBelow.flatMap dropped).flatMap (·.node.info.comments) := by
    rw [Node.typesBelow, Lifecycle.flatMap_dropped, List.flatMap_assoc, List.flatMap_assoc]
    refine List.flatMap_congr fun type inside => ?_
    rw [Lifecycle.lostHooks_rebuilt, recalls.known_lostHooks formed inside]
  rw [commented.allComments_eq, recalls.commented.allComments_eq]
  rwa [List.flatMap_append, List.flatMap_append, lost,
    List.flatMap_eq_nil_iff.2 fun _ _ => rfl, List.flatMap_nil, List.append_nil] at perm

end Recalls

/-- Where the members of types are regrouped, the accessors of a property keep their comments and so do
setters that lose their parameters. What is lost are the comments of the hooks that are merged into
another procedure, and these always are. -/
theorem reshape_comments {text name : String} {module : Module}
    (parsed : parseModule text name = .ok module) :
    let gathered := (ofModule module).dropValueParams.1.gatherAccessors.1
    let merged := gathered.root.typesBelow.flatMap dropped
    gathered.root.allComments.Perm module.root.allComments ∧
      ((ofModule module).reshape.root.allComments ++
        merged.flatMap (·.node.info.comments)).Perm module.root.allComments ∧
      ((ofModule module).reshape.root.allComments.Perm module.root.allComments ↔
        ∀ entry ∈ merged, entry.node.info.comments = []) := by
  intro gathered merged
  obtain ⟨known, recalls⟩ := recalls_ofModule parsed
  have formed := formed_of_parseModule parsed
  obtain ⟨dropping, first⟩ := recalls.dropValueParams formed (parseModule_original parsed).layers
  obtain ⟨gathering, second⟩ := dropping.gatherAccessors
  have kept := second.trans first
  have all : ((ofModule module).reshape.root.allComments ++
      merged.flatMap (·.node.info.comments)).Perm module.root.allComments :=
    (gathering.settleHooks formed.dropValueParams.gatherAccessors).trans kept
  refine ⟨kept, all, ?_⟩
  rw [← List.flatMap_eq_nil_iff]
  constructor
  · intro same
    have lengths := (all.trans same.symm).length_eq
    rw [List.length_append] at lengths
    exact List.eq_nil_of_length_eq_zero (by omega)
  · intro none
    rwa [none, List.append_nil] at all

/-- The comment in a hook beside a constructor stays while accessors are gathered; afterwards it is in
the tree or at a hook that was merged. -/
theorem reshape_comments_hook : ∃ module,
    parseModule "x = 1\nSub Class_Initialize\n' c\nEnd Sub" "M" = .ok module ∧
    let gathered := (ofModule module).dropValueParams.1.gatherAccessors.1
    gathered.root.allComments = [⟨3, "c"⟩] ∧
      (ofModule module).reshape.root.allComments ++
        (gathered.root.typesBelow.flatMap dropped).flatMap (·.node.info.comments) = [⟨3, "c"⟩] := by
  have reads : (parseModule "x = 1\nSub Class_Initialize\n' c\nEnd Sub" "M").toOption.any
      fun _ => true := by
    decide +kernel
  have recorded : (lex "x = 1\nSub Class_Initialize\n' c\nEnd Sub").comments = [⟨3, "c"⟩] := by
    decide +kernel
  obtain ⟨module, parsed, -⟩ := exists_module_of_any reads
  obtain ⟨_, attached, commented⟩ := exists_attached parsed
  rw [← attached, recorded] at commented
  have whole : module.root.allComments.Perm [⟨3, "c"⟩] := commented.all
  obtain ⟨kept, all, -⟩ := reshape_comments parsed
  exact ⟨module, parsed, List.perm_singleton.1 (kept.trans whole),
    List.perm_singleton.1 (all.trans whole)⟩

end Draft

end ScriptMigration
