import ScriptMigration.Proofs.Draft.Formed
import ScriptMigration.Reshape.Lifecycle

/-! Settling the hooks of types keeps a draft well formed: the statements of the hooks that are
merged move to one procedure, and what the tree loses are these hooks without their statements. -/
namespace ScriptMigration

namespace Lifecycle

open Node (Regroups idsBelow)

variable {kind other : MethodKind} {typeName : String} {members : List Node} {member target : Node}

def shell (hook : Node) : List NodeId := hook.id :: (hook.methodDecl?.map (·.body.id)).toList

theorem isHook_cases (hook : isHook kind member) : ∃ decl name, member.shape = .method decl ∧
    decl.kind = .sub ∧ decl.params = [] ∧ hookName? kind = some name ∧ sameName name decl.name := by
  obtain ⟨decl, isMethod, matched⟩ := (Option.any_eq_true _ _).1 hook
  simp only [Bool.and_eq_true, beq_iff_eq, List.isEmpty_iff] at matched
  obtain ⟨⟨isSub, none⟩, named⟩ := matched
  obtain ⟨name, known, same⟩ := (Option.any_eq_true _ _).1 named
  exact ⟨decl, name, Node.shape_of_methodDecl? isMethod, isSub, none, known, same⟩

theorem hasKind_cases (has : hasKind kind member) :
    ∃ decl, member.shape = .method decl ∧ decl.kind = kind := by
  obtain ⟨decl, isMethod, matched⟩ := (Option.any_eq_true _ _).1 has
  exact ⟨decl, Node.shape_of_methodDecl? isMethod, by simpa using matched⟩

theorem target?_cases (found : target? kind members = some target) : target ∈ members ∧
    (hasKind kind target ∨ isHook kind target) := by
  rcases Option.or_eq_some_iff.1 found with has | ⟨-, hook⟩
  · exact ⟨List.mem_of_find?_eq_some has, .inl (List.find?_some has)⟩
  · exact ⟨List.mem_of_find?_eq_some hook, .inr (List.find?_some hook)⟩

theorem method_of_target? (found : target? kind members = some target) :
    ∃ decl, target.shape = .method decl := by
  rcases (target?_cases found).2 with has | hook
  · obtain ⟨decl, shape, -⟩ := hasKind_cases has
    exact ⟨decl, shape⟩
  · obtain ⟨decl, _, shape, -⟩ := isHook_cases hook
    exact ⟨decl, shape⟩

theorem stmts_body {decl : MethodDecl Node} (regular : member.Regular)
    (shape : member.shape = .method decl) : decl.body.stmts = decl.body.children := by
  obtain ⟨stmts, isBlock⟩ := (Shape.family_eq_block_iff _).1 (regular.isBlock shape)
  simp [Node.stmts, Node.children, isBlock, Shape.children]

theorem exists_body {member stmt : Node} (isStmt : stmt ∈ bodyStmts member) :
    ∃ decl, member.shape = .method decl ∧ decl.body ∈ member.children ∧
      stmt ∈ decl.body.stmts := by
  unfold bodyStmts at isStmt
  split at isStmt
  · rename_i decl isMethod
    have shape := Node.shape_of_methodDecl? isMethod
    exact ⟨decl, shape, Node.body_mem_children shape, isStmt⟩
  · exact nomatch isStmt

theorem idsBelow_hook (hook : isHook kind member) (regular : member.Regular) :
    idsBelow [member] = shell member ++ idsBelow (bodyStmts member) := by
  obtain ⟨decl, _, shape, -, none, -⟩ := isHook_cases hook
  have stmts := stmts_body regular shape
  have children : member.children = [decl.body] := by
    rw [Node.children, shape, Shape.children, none]
    rfl
  simp [Node.idsBelow_cons, children, shell, bodyStmts, Node.methodDecl?, shape, stmts]

theorem idsBelow_hooks {hooks : List Node} (all : ∀ hook ∈ hooks, isHook kind hook ∧ hook.Regular) :
    (idsBelow hooks).Perm (hooks.flatMap shell ++ idsBelow (hooks.flatMap bodyStmts)) := by
  induction hooks with
  | nil => exact .refl _
  | cons hook rest ih =>
    obtain ⟨isHook, regular⟩ := all hook List.mem_cons_self
    have rest := ih fun other inside => all other (List.mem_cons_of_mem _ inside)
    rw [← List.singleton_append, Node.idsBelow_append, idsBelow_hook isHook regular]
    refine List.perm_iff_count.2 fun id => ?_
    have counted := rest.count_eq id
    simp only [List.singleton_append, List.flatMap_cons, Node.idsBelow_append,
      List.count_append] at counted ⊢
    omega

@[simp] theorem id_extend (stmts : List Node) (member : Node) :
    (extend kind typeName stmts member).id = member.id := by
  unfold extend
  split
  · rfl
  · split <;> rfl

theorem shape_extend (kind : MethodKind) (typeName : String) {decl : MethodDecl Node}
    (shape : member.shape = .method decl) (stmts : List Node) :
    ∃ kind' name, (extend kind typeName stmts member).shape = .method { decl with
      kind := kind', name, body := decl.body.withShape (.block (decl.body.stmts ++ stmts)) } ∧
      ((isHook kind member ∧ kind' = kind) ∨ kind' = decl.kind) := by
  have isMethod : member.methodDecl? = some decl := by simp [Node.methodDecl?, shape]
  unfold extend
  rw [isMethod]
  dsimp only
  split
  · rename_i hook
    exact ⟨kind, typeName, rfl, .inl ⟨hook, rfl⟩⟩
  · exact ⟨decl.kind, decl.name, rfl, .inr rfl⟩

theorem idsBelow_extend (kind : MethodKind) (typeName : String) {decl : MethodDecl Node}
    (shape : member.shape = .method decl) (regular : member.Regular) (stmts : List Node) :
    (idsBelow [extend kind typeName stmts member]).Perm (idsBelow [member] ++ idsBelow stmts) := by
  obtain ⟨kind', name, extended, -⟩ := shape_extend kind typeName shape stmts
  have inner := stmts_body regular shape
  have before : member.children = decl.params ++ [decl.body] := by
    rw [Node.children, shape, Shape.children]
  have after : (extend kind typeName stmts member).children =
      decl.params ++ [decl.body.withShape (.block (decl.body.children ++ stmts))] := by
    rw [Node.children, extended, Shape.children, inner]
  have body : (decl.body.withShape (.block (decl.body.children ++ stmts))).children =
      decl.body.children ++ stmts := rfl
  have same : (decl.body.withShape (.block (decl.body.children ++ stmts))).id = decl.body.id := rfl
  simp [Node.idsBelow_cons, before, after, body, same]

/-- The members of a type, each with an identity of its own and regular in itself. -/
structure Orderly (members : List Node) : Prop where
  once : (members.map Node.id).Nodup
  regular : ∀ member ∈ members, ∀ below ∈ member.descendants, below.Regular

namespace Orderly

theorem own (orderly : Orderly members) (inside : member ∈ members) : member.Regular :=
  orderly.regular member inside member member.mem_descendants_self

theorem body (orderly : Orderly members) (inside : member ∈ members) {stmt below : Node}
    (isStmt : stmt ∈ bodyStmts member) (lies : below ∈ stmt.descendants) : below.Regular := by
  obtain ⟨decl, shape, isBody, isStmt⟩ := exists_body isStmt
  rw [stmts_body (orderly.own inside) shape] at isStmt
  exact orderly.regular member inside below (Node.mem_descendants_of_child isBody
    (Node.mem_descendants_of_child isStmt lies))

end Orderly

theorem extend_regular {decl : MethodDecl Node} (shape : target.shape = .method decl)
    (regular : ∀ below ∈ target.descendants, below.Regular) {stmts : List Node}
    (added : ∀ stmt ∈ stmts, ∀ below ∈ stmt.descendants, below.Regular) :
    ∀ below ∈ (extend kind typeName stmts target).descendants, below.Regular := by
  obtain ⟨kind', name, extended, -⟩ := shape_extend kind typeName shape stmts
  have own := regular target target.mem_descendants_self
  have inner {part below : Node} (isPart : part ∈ decl.params ++ [decl.body])
      (lies : below ∈ part.descendants) : below.Regular := by
    refine regular below (Node.mem_descendants_of_child ?_ lies)
    rwa [Node.children, shape]
  intro below inside
  rcases Node.mem_descendants_cases inside with rfl | ⟨part, isPart, deeper⟩
  · refine ⟨fun demand listed => ?_, by rw [extended]; rfl⟩
    rw [extended] at listed
    rcases List.mem_append.1 listed with listed | listed
    · refine own.parts demand ?_
      rw [shape]
      exact List.mem_append_left _ listed
    · obtain rfl := List.mem_singleton.1 listed
      rfl
  · rw [Node.children, extended] at isPart
    rcases List.mem_append.1 isPart with isParam | isBody
    · exact inner (List.mem_append_left _ isParam) deeper
    · obtain rfl := List.mem_singleton.1 isBody
      rcases Node.mem_descendants_cases deeper with rfl | ⟨stmt, isStmt, lowest⟩
      · exact .ofNone rfl rfl
      · rcases List.mem_append.1 isStmt with old | new
        · rw [stmts_body own shape] at old
          exact inner (List.mem_append_right _ (List.mem_singleton.2 rfl))
            (Node.mem_descendants_of_child old lowest)
        · exact added stmt new below lowest

section Settle

variable (kind typeName)

def extendAt (id : NodeId) (stmts : List Node) (member : Node) : Node :=
  if member.id == id then extend kind typeName stmts member else member

theorem id_extendAt (id : NodeId) (stmts : List Node) (member : Node) :
    (extendAt kind typeName id stmts member).id = member.id := by
  unfold extendAt
  split
  · exact id_extend stmts member
  · rfl

theorem idsBelow_extendAt {decl : MethodDecl Node} (shape : target.shape = .method decl)
    (regular : target.Regular) (once : (members.map Node.id).Nodup) (inside : target ∈ members)
    (stmts : List Node) : (idsBelow (members.map (extendAt kind typeName target.id stmts))).Perm
      (idsBelow members ++ idsBelow stmts) := by
  obtain ⟨before, after, rfl⟩ := List.append_of_mem inside
  rw [List.map_append, List.map_cons, List.nodup_append', List.nodup_cons] at once
  obtain ⟨-, ⟨later, -⟩, apart⟩ := once
  have unchanged {others : List Node} (absent : target.id ∉ others.map Node.id) :
      others.map (extendAt kind typeName target.id stmts) = others := by
    refine (List.map_congr_left fun other listed => ?_).trans (List.map_id others)
    have differs : other.id ≠ target.id := fun same =>
      absent (List.mem_map.2 ⟨other, listed, same⟩)
    simp [extendAt, differs]
  have first := unchanged fun listed => apart listed List.mem_cons_self
  have here : extendAt kind typeName target.id stmts target = extend kind typeName stmts target := by
    simp [extendAt]
  have grown := idsBelow_extend kind typeName shape regular stmts
  rw [List.map_append, List.map_cons, first, unchanged later, here]
  refine List.perm_iff_count.2 fun id => ?_
  have counted := grown.count_eq id
  simp only [Node.idsBelow_append, Node.idsBelow_cons, List.count_append, List.count_cons,
    Node.idsBelow_nil, List.append_nil] at counted ⊢
  omega

theorem settle_eq (found : target? kind members = some target) :
    settle kind typeName members =
      (members.filter fun member => !(isHook kind member && member.id != target.id)).map
        (extendAt kind typeName target.id ((mergedHooks kind members).flatMap bodyStmts)) := by
  simp only [settle, found]
  rfl

theorem settle_perm (orderly : Orderly members) :
    (idsBelow (settle kind typeName members) ++ (mergedHooks kind members).flatMap shell).Perm
      (idsBelow members) := by
  cases found : target? kind members with
  | none => simp [settle, mergedHooks, found]
  | some target =>
    obtain ⟨inside, -⟩ := target?_cases found
    obtain ⟨decl, shape⟩ := method_of_target? found
    have merged : mergedHooks kind members =
        members.filter fun member => isHook kind member && member.id != target.id := by
      simp [mergedHooks, found]
    have hooks : ∀ hook ∈ mergedHooks kind members, isHook kind hook ∧ hook.Regular := by
      intro hook listed
      rw [merged] at listed
      obtain ⟨isMember, is⟩ := List.mem_filter.1 listed
      exact ⟨(Bool.and_eq_true_iff.1 is).1, orderly.own isMember⟩
    have split := Node.idsBelow_perm (List.filter_append_perm
      (fun member => isHook kind member && member.id != target.id) members)
    have stays : target ∈ members.filter fun member =>
        !(isHook kind member && member.id != target.id) := List.mem_filter.2 ⟨inside, by simp⟩
    have kept := idsBelow_extendAt kind typeName shape (orderly.own inside)
      (orderly.once.sublist (List.filter_sublist.map Node.id)) stays
      ((mergedHooks kind members).flatMap bodyStmts)
    have moved := idsBelow_hooks hooks
    rw [settle_eq kind typeName found]
    rw [← merged, Node.idsBelow_append] at split
    refine List.perm_iff_count.2 fun id => ?_
    have counted := split.count_eq id
    have grown := kept.count_eq id
    have parted := moved.count_eq id
    simp only [List.count_append] at counted grown parted ⊢
    omega

theorem settle_orderly (orderly : Orderly members) : Orderly (settle kind typeName members) := by
  cases found : target? kind members with
  | none => simpa [settle, found] using orderly
  | some target =>
    obtain ⟨decl, shape⟩ := method_of_target? found
    rw [settle_eq kind typeName found]
    refine ⟨?_, fun new listed => ?_⟩
    · rw [List.map_map, show Node.id ∘ extendAt kind typeName target.id _ = Node.id from
        funext (id_extendAt kind typeName target.id _)]
      exact orderly.once.sublist (List.filter_sublist.map Node.id)
    · obtain ⟨old, kept, rfl⟩ := List.mem_map.1 listed
      have isMember := (List.mem_filter.1 kept).1
      unfold extendAt
      split
      · rename_i same
        obtain rfl : old = target := List.inj_on_of_nodup_map orderly.once isMember
          (target?_cases found).1 (by simpa using same)
        refine extend_regular shape (orderly.regular old isMember) fun stmt isStmt below lies => ?_
        obtain ⟨hook, isHook, inside⟩ := List.mem_flatMap.1 isStmt
        simp only [mergedHooks, found] at isHook
        exact orderly.body (List.mem_filter.1 isHook).1 inside lies
      · exact orderly.regular old isMember

end Settle

theorem hookNames_differ : FoldedName.of "Class_Initialize" ≠ FoldedName.of "Class_Terminate" := by
  intro same
  have letters := congrArg (fun name : FoldedName => name.text.toList) same
  simp [FoldedName.of] at letters

theorem isHook_excludes (differ : kind ≠ other) (hook : isHook kind member) :
    isHook other member = false := by
  obtain ⟨decl, name, shape, -, -, known, same⟩ := isHook_cases hook
  rw [Bool.eq_false_iff]
  intro also
  obtain ⟨decl', name', shape', -, -, known', same'⟩ := isHook_cases also
  obtain rfl : decl = decl' := by
    rw [shape] at shape'
    injection shape'
  have equal : FoldedName.of name = FoldedName.of name' :=
    (eq_of_beq same).trans (eq_of_beq same').symm
  cases kind <;> cases other <;> simp only [hookName?, reduceCtorEq, Option.some.injEq] at known known'
  · exact differ rfl
  · subst known known'
    exact hookNames_differ equal
  · subst known known'
    exact hookNames_differ equal.symm
  · exact differ rfl

theorem isHook_excludes_kind (hook : isHook kind member) (lifecycle : other.isLifecycle) :
    hasKind other member = false := by
  obtain ⟨decl, name, shape, isSub, -⟩ := isHook_cases hook
  have isMethod : member.methodDecl? = some decl := by simp [Node.methodDecl?, shape]
  cases other <;> simp_all [hasKind, MethodKind.isLifecycle]

theorem hasKind_excludes (has : hasKind kind member) (lifecycle : kind.isLifecycle)
    (differ : kind ≠ other) : isHook other member = false ∧ hasKind other member = false := by
  obtain ⟨decl, shape, rfl⟩ := hasKind_cases has
  have isMethod : member.methodDecl? = some decl := by simp [Node.methodDecl?, shape]
  refine ⟨?_, by simp [hasKind, isMethod, differ]⟩
  rw [Bool.eq_false_iff]
  intro hook
  obtain ⟨decl', _, shape', isSub, -⟩ := isHook_cases hook
  obtain rfl : decl = decl' := by
    rw [shape] at shape'
    injection shape'
  rw [isSub] at lifecycle
  cases lifecycle

theorem hasKind_extend (is : hasKind kind target ∨ isHook kind target) (stmts : List Node) :
    hasKind kind (extend kind typeName stmts target) := by
  obtain ⟨decl, shape, has⟩ : ∃ decl, target.shape = .method decl ∧
      (isHook kind target ∨ decl.kind = kind) := by
    rcases is with has | hook
    · obtain ⟨decl, shape, same⟩ := hasKind_cases has
      exact ⟨decl, shape, .inr same⟩
    · obtain ⟨decl, _, shape, -⟩ := isHook_cases hook
      exact ⟨decl, shape, .inl hook⟩
  have isMethod : target.methodDecl? = some decl := by simp [Node.methodDecl?, shape]
  unfold extend
  rw [isMethod]
  dsimp only
  split
  · simp [hasKind, Node.methodDecl?, Node.withShape, Node.shape]
  · rename_i plain
    have same : decl.kind = kind := has.resolve_left plain
    simp [hasKind, Node.methodDecl?, Node.withShape, Node.shape, same]

theorem filter_settle (typeName : String) (once : (members.map Node.id).Nodup) {p : Node → Bool}
    (foreign : ∀ member, hasKind kind member ∨ isHook kind member → p member = false) :
    (settle kind typeName members).filter p = members.filter p := by
  cases found : target? kind members with
  | none => simp [settle, found]
  | some target =>
    obtain ⟨inside, is⟩ := target?_cases found
    rw [settle_eq kind typeName found]
    generalize (mergedHooks kind members).flatMap bodyStmts = stmts
    obtain ⟨keep, dropped, same⟩ : ∃ keep : Node → Bool,
        (∀ member, keep member = false → isHook kind member) ∧
          (fun member => !(isHook kind member && member.id != target.id)) = keep := by
      refine ⟨_, fun member gone => ?_, rfl⟩
      rw [Bool.not_eq_false', Bool.and_eq_true] at gone
      exact gone.1
    rw [same]
    have each {part : List Node} (sub : part ⊆ members) :
        ((part.filter keep).map (extendAt kind typeName target.id stmts)).filter p =
          part.filter p := by
      induction part with
      | nil => rfl
      | cons member rest ih =>
        obtain ⟨isMember, sub⟩ := List.cons_subset.1 sub
        cases kept : keep member with
        | false => simp [kept, foreign member (.inr (dropped member kept)), ih sub]
        | true =>
          by_cases same : member.id = target.id
          · obtain rfl := List.inj_on_of_nodup_map once isMember inside same
            have extended : p (extend kind typeName stmts member) = false :=
              foreign _ (.inl (hasKind_extend is stmts))
            simp [kept, extendAt, extended, foreign member is, ih sub]
          · simp [kept, extendAt, same, List.filter_cons, ih sub]
    exact each (List.Subset.refl _)

theorem excludes (lifecycle : kind.isLifecycle) (alsoLifecycle : other.isLifecycle)
    (differ : kind ≠ other) (is : hasKind kind member ∨ isHook kind member) :
    isHook other member = false ∧ hasKind other member = false := by
  rcases is with has | hook
  · exact hasKind_excludes has lifecycle differ
  · exact ⟨isHook_excludes differ hook, isHook_excludes_kind hook alsoLifecycle⟩

section Other

variable (once : (members.map Node.id).Nodup) (lifecycle : kind.isLifecycle)
  (alsoLifecycle : other.isLifecycle) (differ : kind ≠ other)

include once lifecycle alsoLifecycle differ

theorem target?_settle : target? other (settle kind typeName members) = target? other members := by
  have hooks := filter_settle typeName once fun _ is => (excludes lifecycle alsoLifecycle differ is).1
  have kinds := filter_settle typeName once fun _ is => (excludes lifecycle alsoLifecycle differ is).2
  simp only [target?, ← List.head?_filter, hooks, kinds]

theorem mergedHooks_settle :
    mergedHooks other (settle kind typeName members) = mergedHooks other members := by
  unfold mergedHooks
  rw [target?_settle once lifecycle alsoLifecycle differ]
  split
  · rfl
  · apply filter_settle typeName once
    intro member is
    rw [(excludes lifecycle alsoLifecycle differ is).1]
    rfl

end Other

def lostHooks (node : Node) : List NodeId :=
  (node.typeDecl?.map fun decl =>
    kinds.flatMap fun kind => (mergedHooks kind decl.members).flatMap shell).getD []

theorem settleNode_regroups :
    Regroups (Orderly ·.children) settleNode lostHooks fun _ => [] := by
  refine ⟨fun node => ?_, fun node orderly => ?_⟩
  · unfold settleNode
    split <;> rfl
  · rcases node with ⟨info, shape⟩
    cases shape with
    | type decl =>
      have orderly : Orderly decl.members := orderly
      have first := settle_perm .constructor decl.name orderly
      have second := settle_perm .destructor decl.name
        (settle_orderly .constructor decl.name orderly)
      rw [mergedHooks_settle orderly.once rfl rfl (by decide)] at second
      have lost : lostHooks (.mk info (.type decl)) =
          (mergedHooks .constructor decl.members).flatMap shell ++
            (mergedHooks .destructor decl.members).flatMap shell := by
        simp [lostHooks, Node.typeDecl?, Node.shape, kinds]
      have members : (settleNode (.mk info (.type decl))).children =
          settle .destructor decl.name (settle .constructor decl.name decl.members) := rfl
      rw [lost, members, List.append_nil]
      refine List.perm_iff_count.2 fun id => ?_
      have counted := first.count_eq id
      have further := second.count_eq id
      simp only [List.count_append, Node.children, Node.shape, Shape.children] at counted further ⊢
      omega
    | _ => exact .refl _

theorem settleNode_family (node : Node) :
    (settleNode node).shape.family = node.shape.family := by
  rcases node with ⟨info, shape⟩
  cases shape <;> rfl

theorem settleNode_regular (node : Node) (once : (node.children.map Node.id).Nodup)
    (regular : ∀ below ∈ node.descendants, below.Regular) :
    ∀ below ∈ (settleNode node).descendants, below.Regular := by
  rcases node with ⟨info, shape⟩
  cases shape with
  | type decl =>
    have orderly : Orderly decl.members := ⟨once, fun member isMember below lies =>
      regular below (Node.mem_descendants_of_child isMember lies)⟩
    have settled := settle_orderly .destructor decl.name
      (settle_orderly .constructor decl.name orderly)
    intro below inside
    rcases Node.mem_descendants_cases inside with rfl | ⟨part, isPart, deeper⟩
    · exact .ofNone rfl rfl
    · exact settled.regular part isPart below deeper
  | _ => exact regular

section Rebuilt

variable (kind) (hook : Node)

theorem methodDecl?_mapUp : (hook.mapUp settleNode).methodDecl? = hook.methodDecl?.map fun decl =>
    { decl with
      params := decl.params.map (Node.mapUp settleNode), body := decl.body.mapUp settleNode } := by
  have kept (node : Node) : (settleNode node).methodDecl? = node.methodDecl? := by
    rcases node with ⟨info, shape⟩
    cases shape <;> rfl
  rw [Node.mapUp_eq, kept, Node.methodDecl?_rebuilt]

theorem isHook_mapUp : isHook kind (hook.mapUp settleNode) = isHook kind hook := by
  unfold isHook
  rw [methodDecl?_mapUp]
  cases hook.methodDecl? with
  | none => rfl
  | some decl => simp

theorem hasKind_mapUp : hasKind kind (hook.mapUp settleNode) = hasKind kind hook := by
  unfold hasKind
  rw [methodDecl?_mapUp]
  cases hook.methodDecl? <;> rfl

theorem id_mapUp : (hook.mapUp settleNode).id = hook.id := by
  rw [Node.mapUp_eq, settleNode_regroups.id, Node.id_rebuilt]

theorem shell_mapUp : shell (hook.mapUp settleNode) = shell hook := by
  unfold shell
  rw [id_mapUp, methodDecl?_mapUp]
  cases hook.methodDecl? with
  | none => rfl
  | some decl => simp [id_mapUp]

theorem target?_mapUp (members : List Node) : target? kind (members.map (Node.mapUp settleNode)) =
    (target? kind members).map (Node.mapUp settleNode) := by
  simp only [target?, List.find?_map, Function.comp_def, isHook_mapUp, hasKind_mapUp]
  cases members.find? (hasKind kind) <;> rfl

theorem mergedHooks_mapUp (members : List Node) :
    mergedHooks kind (members.map (Node.mapUp settleNode)) =
      (mergedHooks kind members).map (Node.mapUp settleNode) := by
  unfold mergedHooks
  rw [target?_mapUp]
  cases target? kind members with
  | none => rfl
  | some target => simp [List.filter_map, Function.comp_def, isHook_mapUp, id_mapUp]

theorem lostHooks_rebuilt (old : Node) : lostHooks (old.rebuilt settleNode) = lostHooks old := by
  unfold lostHooks
  rw [Node.typeDecl?_rebuilt]
  cases old.typeDecl? with
  | none => rfl
  | some decl => simp [mergedHooks_mapUp, List.flatMap_map, shell_mapUp]

end Rebuilt

theorem mem_lostHooks {type node : Node} {entry : Retired} (listed : entry ∈ dropped type)
    (inside : node ∈ entry.node.descendants) : node.id ∈ lostHooks type := by
  unfold dropped at listed
  cases isType : type.typeDecl? with
  | none =>
    rw [isType] at listed
    exact nomatch listed
  | some decl =>
    rw [isType] at listed
    obtain ⟨kind, among, listed⟩ := List.mem_flatMap.1 listed
    obtain ⟨hook, merged, rfl⟩ := List.mem_map.1 listed
    simp only [lostHooks, isType, Option.map_some, Option.getD_some]
    refine List.mem_flatMap.2 ⟨kind, among, List.mem_flatMap.2 ⟨hook, merged, ?_⟩⟩
    have isHook : isHook kind hook := by
      unfold mergedHooks at merged
      split at merged
      · exact nomatch merged
      · exact (Bool.and_eq_true_iff.1 (List.mem_filter.1 merged).2).1
    obtain ⟨decl, _, shape, -, none, -⟩ := isHook_cases isHook
    have isMethod : hook.methodDecl? = some decl := by simp [Node.methodDecl?, shape]
    have empty : (emptied hook).descendants.map Node.id = shell hook := by
      simp only [emptied, shell, isMethod]
      simp [Node.ids_eq, Node.idsBelow_cons, Node.children, Node.withShape, Node.shape,
        Shape.children, none, Node.id, Node.info]
    rw [← empty]
    exact List.mem_map.2 ⟨node, inside, rfl⟩

end Lifecycle

namespace Draft.Formed

open Lifecycle

variable {draft : Draft} (formed : draft.Formed)

include formed

theorem nodup_children_rebuilt {old : Node} (lies : old ∈ draft.root.descendants) :
    ((old.rebuilt settleNode).children.map Node.id).Nodup := by
  rw [settleNode_regroups.ids_children_rebuilt]
  have all := formed.distinct.parts_nodup (fun _ _ => List.Sublist.refl _)
  exact (List.nodup_flatMap.1 all).1 old lies

theorem regular_settleNode {old : Node} (lies : old ∈ draft.root.descendants)
    (regular : ∀ below ∈ (old.rebuilt settleNode).descendants, below.Regular) :
    ∀ below ∈ (settleNode (old.rebuilt settleNode)).descendants, below.Regular :=
  settleNode_regular (old.rebuilt settleNode) (formed.nodup_children_rebuilt lies) regular

theorem orderly_rebuilt {old : Node} (lies : old ∈ draft.root.descendants) :
    Orderly (old.rebuilt settleNode).children := by
  have rebuilt := Node.regular_rebuilt settleNode_family
    (fun below inside => formed.regular_settleNode (Node.mem_descendants_trans inside lies))
    fun below inside => formed.regular below (Node.mem_descendants_trans inside lies)
  exact ⟨formed.nodup_children_rebuilt lies, fun member isMember below inside =>
    rebuilt below (Node.mem_descendants_of_child isMember inside)⟩

theorem settleHooks : draft.settleHooks.1.Formed := by
  have regular := Node.regular_mapUp settleNode_family
    (fun _ lies => formed.regular_settleNode lies) formed.regular
  refine formed.regroupSame settleNode_regroups (fun _ lies => formed.orderly_rebuilt lies) regular
    fun entry listed node inside => ?_
  obtain ⟨type, isType, among⟩ := List.mem_flatMap.1 listed
  refine List.mem_flatMap.2 ⟨type, (List.mem_filter.1 isType).1, ?_⟩
  rw [lostHooks_rebuilt]
  exact mem_lostHooks among inside

end Draft.Formed

end ScriptMigration
