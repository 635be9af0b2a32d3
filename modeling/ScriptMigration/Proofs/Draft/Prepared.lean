import ScriptMigration.Migration.Migrate
import ScriptMigration.Proofs.Grammar.ModuleLayers
import ScriptMigration.Proofs.Grammar.Modules
import ScriptMigration.Proofs.Grammar.Termination
import ScriptMigration.Proofs.Reshape.Lifecycle
import ScriptMigration.Proofs.Reshape.Property
import ScriptMigration.Proofs.Reshape.SetterValue

/-! Drafts that are ready to be resolved: the tree of a module that was read, after any of the changes
that need no types. They are all well formed and in layers, and hold nothing that a text cannot have but
the values that are assigned to properties. What was taken out of them are parameters and procedures, so
no type is lost. -/
namespace ScriptMigration

/-- A draft of which nothing is known yet, as it was read or after some of the changes that need no
types. -/
inductive Draft.Prepared : Draft → Prop where
  | read {text name : String} {module : Module} (parsed : parseModule text name = .ok module) :
    Prepared (.ofModule module)
  | dropValueParams {draft : Draft} (prepared : draft.Prepared) : draft.dropValueParams.1.Prepared
  | gatherAccessors {draft : Draft} (prepared : draft.Prepared) : draft.gatherAccessors.1.Prepared
  | settleHooks {draft : Draft} (prepared : draft.Prepared) : draft.settleHooks.1.Prepared

namespace Draft

theorem formed_of_parseModule {text name : String} {module : Module}
    (parsed : parseModule text name = .ok module) : (ofModule module).Formed := by
  have numbered := parseModule_numbered parsed
  have descendants : [module.root].flatMap Node.descendants = module.root.descendants :=
    List.flatMap_singleton ..
  have distinct := numbered.distinct
  have range := numbered.range
  have regular := numbered.regular
  rw [descendants] at distinct range regular
  exact ⟨⟨distinct, fun node inside => (range node inside).2⟩,
    fun _ listed => absurd listed List.not_mem_nil, regular, rfl⟩

namespace Prepared

variable {draft : Draft}

theorem formed (prepared : draft.Prepared) : draft.Formed := by
  induction prepared with
  | read parsed => exact formed_of_parseModule parsed
  | dropValueParams _ ih => exact ih.dropValueParams
  | gatherAccessors _ ih => exact ih.gatherAccessors
  | settleHooks _ ih => exact ih.settleHooks

theorem reshape (prepared : draft.Prepared) : draft.reshape.Prepared :=
  prepared.dropValueParams.gatherAccessors.settleHooks

end Prepared

end Draft

theorem Node.AsRead.members_fit {info : NodeInfo} {decl : TypeDecl Node}
    (layers : (Node.mk info (.type decl)).AsRead) : ∀ member ∈ decl.members, member.FitsIn .type :=
  fun member listed => ⟨layers.here.parts member listed, layers.child listed⟩

namespace SetterValue

theorem replace_said (name : String) {node : Node} (said : node.Said) : (replace name node).Said := by
  unfold replace
  split
  · exact ⟨Node.layered_of_bare rfl, rfl⟩
  · exact said

theorem dropParam_asRead {node : Node} (layers : node.AsRead) : (dropParam node).AsRead := by
  rcases dropParam_cases node with ⟨same, _⟩ | ⟨decl, param, name, shape, _, _, same⟩
  · rwa [same]
  · have isPart := Node.body_mem_children shape
    have family : (decl.body.mapInType (replace name)).shape.family = .block := by
      rw [Node.mapInType_eq, (replace_adds name).family, Node.family_withParts,
        layers.here.family_body shape]
    have inner := Node.said_steady.mapInType (replace_adds name) (fun _ => replace_said name)
      (layers.child isPart)
    rw [same]
    have noParams : ∀ param ∈ ([] : List Node), param.FitsIn .method := List.forall_mem_nil _
    refine (Declaration.method_is ?_ ?_).2
    · exact noParams
    · exact ⟨family, inner⟩

theorem family_dropped {root : Node} (layers : root.InLayers) {place : Place}
    (lies : place.node ∈ root.descendants) {entry : Retired} (found : dropped? place = some entry) :
    entry.node.shape.family ≠ .type := by
  obtain ⟨decl, param, owner, shape, value, -, rfl⟩ := dropped?_eq_some found
  have isPart : param ∈ place.node.children := by
    rw [Node.children, shape, Shape.children, (valueParam?_eq_some value).1]
    exact List.mem_cons_self
  have held := (layers place.node lies).parts param isPart
  rw [shape] at held
  intro isType
  rw [isType] at held
  cases held

end SetterValue

namespace Property

theorem gather_is {id : NodeId} {name : String} {members : List Node}
    (layers : ∀ member ∈ members, member.AsRead) : (gather id name members).Is .property := by
  have accessors : ∀ accessor ∈ (gather id name members).children, accessor.FitsIn .property := by
    intro accessor isAccessor
    obtain ⟨isMember, isMethod⟩ := mem_children_gather isAccessor
    refine ⟨?_, layers accessor isMember⟩
    rw [isMethod]
    rfl
  exact Node.is_of_parts nofun rfl accessors

theorem gatherNode_asRead (newId : NodeId → NodeId) {node : Node} (layers : node.AsRead) :
    (gatherNode newId node).AsRead := by
  obtain ⟨info, shape⟩ := node
  cases shape with
  | type decl =>
    have fits := layers.members_fit
    have shown : decl.visibility != .owner := layers.here.written
    refine (Declaration.type_is shown fun part inside => ?_).2
    rcases mem_gatherAll inside with listed | ⟨id, name, later, among, rfl⟩
    · exact fits part listed
    · exact (gather_is fun member listed => (fits member (among listed)).2).fitsIn rfl
  | _ => exact layers

end Property

namespace Lifecycle

variable {kind : MethodKind} {typeName : String} {members : List Node} {member : Node}

theorem bodyStmts_fit (layers : member.AsRead) : ∀ stmt ∈ bodyStmts member, stmt.FitsIn .block := by
  intro stmt isStmt
  obtain ⟨decl, shape, isBody, isStmt⟩ := exists_body isStmt
  have body := layers.child isBody
  rw [layers.here.stmts_body shape] at isStmt
  have held := body.here.parts stmt isStmt
  rw [layers.here.family_body shape] at held
  exact ⟨held, body.child isStmt⟩

theorem extend_fits (fits : member.FitsIn .type) {stmts : List Node}
    (fine : ∀ stmt ∈ stmts, stmt.FitsIn .block) : (extend kind typeName stmts member).FitsIn .type := by
  cases isMethod : member.methodDecl? with
  | none => rwa [extend, isMethod]
  | some decl =>
    have shape := Node.shape_of_methodDecl? isMethod
    obtain ⟨kind', name, extended, -⟩ := shape_extend kind typeName shape stmts
    have params : ∀ param ∈ decl.params, param.FitsIn .method := by
      intro param listed
      have isPart : param ∈ member.children := by
        rw [Node.children, shape]
        exact List.mem_append_left _ listed
      have held := fits.2.here.parts param isPart
      rw [shape] at held
      exact ⟨held, fits.2.child isPart⟩
    have old := bodyStmts_fit fits.2
    rw [bodyStmts, isMethod] at old
    have body : (decl.body.withShape (.block (decl.body.stmts ++ stmts))).Is .block :=
      Node.is_of_parts (fun absurd => by cases absurd) rfl
        (List.forall_mem_append.2 ⟨old, fine⟩)
    generalize extend kind typeName stmts member = new at extended
    obtain ⟨info, _⟩ := new
    obtain rfl := extended
    have made : (Node.mk info (.method { decl with
        kind := kind', name, body := decl.body.withShape (.block (decl.body.stmts ++ stmts)) })).Is
        .method := Declaration.method_is params body
    exact made.fitsIn rfl

theorem settle_fit (fine : ∀ member ∈ members, member.FitsIn .type) :
    ∀ member ∈ settle kind typeName members, member.FitsIn .type := by
  cases found : target? kind members with
  | none => simpa [settle, found] using fine
  | some target =>
    rw [settle_eq kind typeName found]
    intro new listed
    obtain ⟨old, kept, rfl⟩ := List.mem_map.1 listed
    have fits := fine old (List.mem_of_mem_filter kept)
    unfold extendAt
    split
    · refine extend_fits fits fun stmt isStmt => ?_
      obtain ⟨hook, isHook, inside⟩ := List.mem_flatMap.1 isStmt
      simp only [mergedHooks, found] at isHook
      exact bodyStmts_fit (fine hook (List.mem_of_mem_filter isHook)).2 stmt inside
    · exact fits

theorem settleNode_asRead {node : Node} (layers : node.AsRead) : (settleNode node).AsRead := by
  obtain ⟨info, shape⟩ := node
  cases shape with
  | type decl =>
    have fits := layers.members_fit
    have shown : decl.visibility != .owner := layers.here.written
    exact (Declaration.type_is shown (settle_fit (settle_fit fits))).2
  | _ => exact layers

theorem family_dropped {type : Node} {entry : Retired} (listed : entry ∈ dropped type) :
    entry.node.shape.family ≠ .type := by
  unfold dropped at listed
  split at listed
  · cases listed
  · obtain ⟨kind, -, listed⟩ := List.mem_flatMap.1 listed
    obtain ⟨hook, merged, rfl⟩ := List.mem_map.1 listed
    have isHook : isHook kind hook := by
      unfold mergedHooks at merged
      split at merged
      · cases merged
      · exact (Bool.and_eq_true_iff.1 (List.mem_filter.1 merged).2).1
    obtain ⟨decl, _, shape, -⟩ := isHook_cases isHook
    have isMethod : hook.methodDecl? = some decl := by simp [Node.methodDecl?, shape]
    rw [emptied, isMethod]
    exact fun absurd => by cases absurd

end Lifecycle

namespace Draft

variable {draft : Draft}

/-- The tree is in layers, and no type was taken out of it. -/
structure Layered (draft : Draft) : Prop where
  layers : draft.root.InLayers
  retired : ∀ entry ∈ draft.retired, entry.node.shape.family ≠ .type

theorem Prepared.asRead (prepared : draft.Prepared) : draft.root.AsRead := by
  induction prepared with
  | read parsed => exact parseModule_asRead parsed
  | dropValueParams _ ih =>
    exact Node.said_steady.mapUp SetterValue.dropParam_family
      (fun _ _ => SetterValue.dropParam_asRead) ih
  | gatherAccessors _ ih =>
    exact Node.said_steady.mapUp (Property.gatherNode_family _)
      (fun _ _ => Property.gatherNode_asRead _) ih
  | settleHooks _ ih =>
    exact Node.said_steady.mapUp Lifecycle.settleNode_family
      (fun _ _ => Lifecycle.settleNode_asRead) ih

theorem Prepared.layered (prepared : draft.Prepared) : draft.Layered := by
  refine ⟨prepared.asRead.layers, ?_⟩
  induction prepared with
  | read parsed => exact List.forall_mem_nil _
  | dropValueParams prepared ih =>
    refine List.forall_mem_append.2 ⟨ih, fun entry new => ?_⟩
    obtain ⟨place, found, isDropped⟩ := List.mem_filterMap.1 new
    have lies := Node.node_mem_of_mem_placesUp (Node.mem_places_iff.1 found)
    exact SetterValue.family_dropped prepared.asRead.layers lies isDropped
  | gatherAccessors _ ih => exact ih
  | settleHooks _ ih =>
    refine List.forall_mem_append.2 ⟨ih, fun entry new => ?_⟩
    obtain ⟨type, -, among⟩ := List.mem_flatMap.1 new
    exact Lifecycle.family_dropped among

theorem Prepared.isType (prepared : draft.Prepared) :
    draft.root.shape.isType := by
  have kept {f : Node → Node} (family : ∀ node : Node, (f node).shape.family = node.shape.family)
      {root : Node} (isType : root.shape.isType) : (root.mapUp f).shape.isType := by
    rwa [Shape.isType_eq, Node.mapUp_eq, family, Node.family_rebuilt, ← Shape.isType_eq]
  induction prepared with
  | read parsed => exact parseModule_isType parsed
  | dropValueParams _ ih => exact kept SetterValue.dropParam_family ih
  | gatherAccessors _ ih => exact kept (Property.gatherNode_family _) ih
  | settleHooks _ ih => exact kept Lifecycle.settleNode_family ih

end Draft

end ScriptMigration
