import Mathlib.Algebra.BigOperators.Group.List.Basic
import ScriptMigration.Proofs.Draft.Prepared
import ScriptMigration.Proofs.Grammar.Termination
import ScriptMigration.Proofs.Syntax.TypePasses

/-! What becomes of the hooks of a type. The constructor and the destructor take the statements of
the hooks in their order, all other members stay, and nothing is left to settle. -/
namespace ScriptMigration

namespace Lifecycle

variable {kind : MethodKind} {typeName : String} {members : List Node} {member target : Node}
  {stmts : List Node}

/-- Whether a member is no constructor, no destructor and no hook. -/
def isOther (member : Node) : Bool :=
  kinds.all fun kind => !hasKind kind member && !isHook kind member

inductive Stays (member : Node) : Node → Prop
  | same : Stays member member
  | type {new : Node} (isType : member.shape.isType) (alsoType : new.shape.isType)
      (id : new.id = member.id) : Stays member new

/-- What becomes the only procedure of a kind: the one that is there, or else the first hook, which is
then named after its type. -/
inductive Becomes (kind : MethodKind) (typeName : String) (members : List Node) : Node → Node → Prop
  | stays {old : Node} {decl : MethodDecl Node} (stmts : List Node) (shape : old.shape = .method decl)
      (ofKind : decl.kind = kind) : Becomes kind typeName members old
        (old.withShape (.method { decl with body := decl.body.withShape (.block stmts) }))
  | hook {old : Node} {decl : MethodDecl Node} (stmts : List Node) (shape : old.shape = .method decl)
      (none : ∀ member ∈ members, hasKind kind member = false)
      (first : members.find? (isHook kind) = some old) : Becomes kind typeName members old
        (old.withShape (.method { decl with
          kind, name := typeName, body := decl.body.withShape (.block stmts) }))

/-- How the hooks among the members of a type are settled. -/
structure Settled (typeName : String) (members new : List Node) : Prop where
  single : ∀ kind ∈ kinds, new.countP (hasKind kind) ≤ 1
  noHook : ∀ member ∈ new, ∀ decl, member.shape = .method decl → decl.kind = .sub →
    decl.params = [] → sameName "Class_Initialize" decl.name = false ∧
      sameName "Class_Terminate" decl.name = false
  present : ∀ kind ∈ kinds, ((∃ member ∈ new, hasKind kind member) ↔
    ∃ member ∈ members, hasKind kind member ∨ isHook kind member)
  /-- The statements of what was there before come first, then those of the hooks in their order. -/
  body : ∀ kind ∈ kinds, ∀ member ∈ new, hasKind kind member → bodyStmts member =
    (members.filter (hasKind kind)).flatMap bodyStmts ++
      (members.filter (isHook kind)).flatMap bodyStmts
  becomes : ∀ kind ∈ kinds, ∀ member ∈ new, hasKind kind member →
    ∃ old ∈ members, Becomes kind typeName members old member
  others : List.Forall₂ Stays (members.filter isOther) (new.filter isOther)
  order : (new.map Node.id).Sublist (members.map Node.id)

theorem isLifecycle_of_mem (listed : kind ∈ kinds) : kind.isLifecycle := by
  revert listed
  cases kind <;> decide

theorem not_isHook_of_hasKind (lifecycle : kind.isLifecycle) (has : hasKind kind member) :
    isHook kind member = false := by
  rw [Bool.eq_false_iff]
  intro hook
  simp [isHook_excludes_kind hook lifecycle] at has

theorem not_isType_of_part (is : hasKind kind member ∨ isHook kind member) :
    member.shape.isType = false := by
  rcases is with has | hook
  · obtain ⟨decl, shape, -⟩ := hasKind_cases has
    simp [shape, Shape.isType]
  · obtain ⟨decl, _, shape, -⟩ := isHook_cases hook
    simp [shape, Shape.isType]

theorem isOther_eq_true_iff : isOther member ↔
    ∀ kind ∈ kinds, hasKind kind member = false ∧ isHook kind member = false := by
  simp [isOther]

theorem not_isOther_of_part (listed : kind ∈ kinds) (is : hasKind kind member ∨ isHook kind member) :
    isOther member = false := by
  rw [Bool.eq_false_iff]
  intro other
  obtain ⟨noKind, noHook⟩ := isOther_eq_true_iff.1 other kind listed
  simp [noKind, noHook] at is

theorem isOther_of_type (isType : member.shape.isType) : isOther member := by
  rw [isOther_eq_true_iff]
  intro kind _
  constructor <;> rw [Bool.eq_false_iff] <;> intro is
  · simp [not_isType_of_part (.inl is)] at isType
  · simp [not_isType_of_part (.inr is)] at isType

/-! ### The procedure of one kind -/

theorem bodyStmts_of_shape {decl : MethodDecl Node} (shape : member.shape = .method decl) :
    bodyStmts member = decl.body.stmts := by
  simp only [bodyStmts, Node.methodDecl?, shape]

theorem bodyStmts_extend {decl : MethodDecl Node} (shape : member.shape = .method decl) :
    bodyStmts (extend kind typeName stmts member) = bodyStmts member ++ stmts := by
  obtain ⟨kind', name, extended, -⟩ := shape_extend kind typeName shape stmts
  rw [bodyStmts_of_shape extended, bodyStmts_of_shape shape]
  rfl

theorem withShape_self {shape : Shape Node} (same : member.shape = shape) :
    member.withShape shape = member := by
  obtain ⟨info, inner⟩ := member
  exact congrArg (Node.mk info) same.symm

theorem extend_nil (noHook : isHook kind member = false) (regular : member.Regular) :
    extend kind typeName [] member = member := by
  unfold extend
  rw [noHook]
  cases isMethod : member.methodDecl? with
  | none => rfl
  | some decl =>
    have shape := Node.shape_of_methodDecl? isMethod
    obtain ⟨inner, isBlock⟩ := (Shape.family_eq_block_iff _).1 (regular.isBlock shape)
    have body : decl.body.withShape (.block (decl.body.stmts ++ [])) = decl.body := by
      apply withShape_self
      simp [Node.stmts, isBlock]
    dsimp only
    rw [if_neg Bool.false_ne_true, body]
    exact withShape_self shape

theorem filter_eq_singleton {p : Node → Bool} (once : (members.map Node.id).Nodup)
    (inside : target ∈ members) (only : ∀ member ∈ members, p member = (member.id == target.id)) :
    members.filter p = [target] := by
  obtain ⟨before, after, rfl⟩ := List.append_of_mem inside
  rw [List.map_append, List.map_cons, List.nodup_append', List.nodup_cons] at once
  obtain ⟨-, ⟨later, -⟩, apart⟩ := once
  have none {others : List Node} (among : others ⊆ before ++ target :: after)
      (absent : target.id ∉ others.map Node.id) : others.filter p = [] := by
    rw [List.filter_eq_nil_iff]
    intro other listed
    rw [only other (among listed), beq_iff_eq]
    intro same
    exact absent (List.mem_map.2 ⟨other, listed, same⟩)
  have here : p target := by simp [only target inside]
  rw [List.filter_append, List.filter_cons_of_pos here,
    none (List.subset_append_left _ _) fun listed => apart listed List.mem_cons_self,
    none (fun _ listed => by simp [listed]) later, List.nil_append]

theorem hasKind_eq_of_target? (few : members.countP (hasKind kind) ≤ 1)
    (found : target? kind members = some target) (inside : member ∈ members)
    (differs : member.id ≠ target.id) : hasKind kind member = false := by
  rw [Bool.eq_false_iff]
  intro has
  have isTarget : (members.filter (hasKind kind)).head? = some target := by
    have isSome : (members.find? (hasKind kind)).isSome :=
      List.find?_isSome.2 ⟨member, inside, has⟩
    rwa [List.head?_filter, ← Option.or_of_isSome isSome]
  have listed := List.mem_filter.2 ⟨inside, has⟩
  rw [List.countP_eq_length_filter] at few
  cases all : members.filter (hasKind kind) with
  | nil => simp [all] at listed
  | cons first rest =>
    have none : rest = [] := by simpa [all] using few
    rw [all] at isTarget listed
    simp_all

theorem target?_isSome_iff : (target? kind members).isSome ↔
    ∃ member ∈ members, hasKind kind member ∨ isHook kind member := by
  simp only [target?, Option.isSome_or, Bool.or_eq_true, List.find?_isSome, and_or_left, exists_or]

theorem mergedHooks_of_target? (found : target? kind members = some target) :
    mergedHooks kind members = (members.filter (isHook kind)).filter (·.id != target.id) := by
  rw [mergedHooks, found, List.filter_filter]
  simp only [Bool.and_comm]

theorem mergedHooks_of_no_hooks (none : members.filter (isHook kind) = []) :
    mergedHooks kind members = [] := by
  cases found : target? kind members with
  | none => rw [mergedHooks, found]
  | some target => rw [mergedHooks_of_target? found, none, List.filter_nil]

theorem becomes_extend (lifecycle : kind.isLifecycle) (found : target? kind members = some target)
    (stmts : List Node) : Becomes kind typeName members target (extend kind typeName stmts target) := by
  rcases Option.or_eq_some_iff.1 found with has | ⟨none, first⟩
  · have ofKind := List.find?_some has
    obtain ⟨decl, shape, same⟩ := hasKind_cases ofKind
    have isMethod : target.methodDecl? = some decl := by simp [Node.methodDecl?, shape]
    rw [extend, isMethod, not_isHook_of_hasKind lifecycle ofKind]
    exact .stays _ shape same
  · have hook := List.find?_some first
    obtain ⟨decl, _, shape, -⟩ := isHook_cases hook
    have isMethod : target.methodDecl? = some decl := by simp [Node.methodDecl?, shape]
    rw [extend, isMethod, hook]
    refine .hook _ shape (fun member inside => ?_) first
    simpa using List.find?_eq_none.1 none member inside

theorem parts_eq (once : (members.map Node.id).Nodup) (lifecycle : kind.isLifecycle)
    (few : members.countP (hasKind kind) ≤ 1) :
    members.filter (hasKind kind) ++ members.filter (isHook kind) =
      (target? kind members).toList ++ mergedHooks kind members := by
  cases found : target? kind members with
  | none =>
    obtain ⟨noKind, noHook⟩ := Option.or_eq_none_iff.1 found
    rw [List.find?_eq_none] at noKind noHook
    rw [List.filter_eq_nil_iff.2 noKind, List.filter_eq_nil_iff.2 noHook, mergedHooks, found]
    rfl
  | some target =>
    obtain ⟨inside, is⟩ := target?_cases found
    have others (member : Node) (listed : member ∈ members) (differs : member.id ≠ target.id) :=
      hasKind_eq_of_target? few found listed differs
    rw [mergedHooks_of_target? found, Option.toList_some, List.singleton_append]
    by_cases has : hasKind kind target
    · have own : members.filter (hasKind kind) = [target] := by
        apply filter_eq_singleton once inside
        intro member listed
        by_cases same : member.id = target.id
        · obtain rfl := List.inj_on_of_nodup_map once listed inside same
          simp [has]
        · simp [same, others member listed same]
      have hooks : (members.filter (isHook kind)).filter (·.id != target.id) =
          members.filter (isHook kind) := by
        rw [List.filter_eq_self]
        intro hook listed
        obtain ⟨listed, isHook⟩ := List.mem_filter.1 listed
        rw [bne_iff_ne]
        intro same
        obtain rfl := List.inj_on_of_nodup_map once listed inside same
        simp [not_isHook_of_hasKind lifecycle has] at isHook
      rw [own, hooks]
      rfl
    · have own : members.filter (hasKind kind) = [] := by
        rw [List.filter_eq_nil_iff]
        intro member listed isKind
        by_cases same : member.id = target.id
        · obtain rfl := List.inj_on_of_nodup_map once listed inside same
          exact has isKind
        · simp [others member listed same] at isKind
      have first : (members.filter (isHook kind)).head? = some target := by
        have none : members.find? (hasKind kind) = none := by
          rw [← List.head?_filter, own]
          rfl
        rw [List.head?_filter, ← found, target?, none, Option.none_or]
      obtain ⟨rest, hooks⟩ := List.head?_eq_some_iff.1 first
      have apart : target.id ∉ rest.map Node.id := by
        have once := once.sublist ((List.filter_sublist (p := isHook kind)).map Node.id)
        rw [hooks, List.map_cons, List.nodup_cons] at once
        exact once.1
      rw [own, hooks, List.nil_append, List.filter_cons_of_neg (by simp)]
      congr 1
      rw [eq_comm, List.filter_eq_self]
      intro hook listed
      rw [bne_iff_ne]
      intro same
      exact apart (List.mem_map.2 ⟨hook, listed, same⟩)

theorem filter_hasKind_settle (once : (members.map Node.id).Nodup)
    (few : members.countP (hasKind kind) ≤ 1) :
    (settle kind typeName members).filter (hasKind kind) = (target? kind members).toList.map
      (extend kind typeName ((mergedHooks kind members).flatMap bodyStmts)) := by
  cases found : target? kind members with
  | none =>
    obtain ⟨noKind, -⟩ := Option.or_eq_none_iff.1 found
    rw [settle, found]
    exact List.filter_eq_nil_iff.2 (List.find?_eq_none.1 noKind)
  | some target =>
    obtain ⟨inside, is⟩ := target?_cases found
    rw [settle_eq kind typeName found, List.filter_map, List.filter_filter,
      filter_eq_singleton once inside]
    · simp [extendAt]
    · intro member listed
      by_cases same : member.id = target.id
      · obtain rfl := List.inj_on_of_nodup_map once listed inside same
        simp [extendAt, hasKind_extend is]
      · simp [extendAt, same, hasKind_eq_of_target? few found listed same]

theorem isHook_settle (once : (members.map Node.id).Nodup) (lifecycle : kind.isLifecycle) :
    ∀ member ∈ settle kind typeName members, isHook kind member = false := by
  intro member listed
  cases found : target? kind members with
  | none =>
    obtain ⟨-, noHook⟩ := Option.or_eq_none_iff.1 found
    rw [settle, found] at listed
    simpa using List.find?_eq_none.1 noHook member listed
  | some target =>
    rw [settle_eq kind typeName found, List.mem_map] at listed
    obtain ⟨old, remains, rfl⟩ := listed
    obtain ⟨inside, keeps⟩ := List.mem_filter.1 remains
    unfold extendAt
    split
    · rename_i same
      obtain ⟨isMember, is⟩ := target?_cases found
      obtain rfl := List.inj_on_of_nodup_map once inside isMember (eq_of_beq same)
      exact not_isHook_of_hasKind lifecycle (hasKind_extend is _)
    · rename_i differs
      rw [beq_iff_eq] at differs
      simpa [differs] using keeps

theorem ids_settle : ((settle kind typeName members).map Node.id).Sublist
    (members.map Node.id) := by
  cases found : target? kind members with
  | none => simp [settle, found]
  | some target =>
    rw [settle_eq kind typeName found, List.map_map,
      show Node.id ∘ extendAt kind typeName target.id _ = Node.id from
        funext (id_extendAt kind typeName target.id _)]
    exact List.filter_sublist.map Node.id

theorem settle_of_no_hooks (noHook : ∀ member ∈ members, isHook kind member = false)
    (regular : ∀ member ∈ members, member.Regular) : settle kind typeName members = members := by
  cases found : target? kind members with
  | none => simp [settle, found]
  | some target =>
    have none : mergedHooks kind members = [] := by
      apply mergedHooks_of_no_hooks
      rw [List.filter_eq_nil_iff]
      intro member listed
      simp [noHook member listed]
    have all : members.filter (fun member => !(isHook kind member && member.id != target.id)) =
        members := by
      rw [List.filter_eq_self]
      intro member listed
      simp [noHook member listed]
    rw [settle_eq kind typeName found, none, all, List.flatMap_nil]
    conv_rhs => rw [← List.map_id members]
    apply List.map_congr_left
    intro member listed
    unfold extendAt
    split
    · exact extend_nil (noHook member listed) (regular member listed)
    · rfl

/-! ### The procedures of all kinds -/

def settleAll (typeName : String) (members : List Node) : List Node :=
  kinds.foldl (fun members kind => settle kind typeName members) members

theorem settleAll_eq (typeName : String) (members : List Node) : settleAll typeName members =
    settle .destructor typeName (settle .constructor typeName members) := rfl

section All

variable (once : (members.map Node.id).Nodup) (listed : kind ∈ kinds)

include once in
theorem filter_settleAll {p : Node → Bool}
    (foreign : ∀ kind ∈ kinds, ∀ member, hasKind kind member ∨ isHook kind member →
      p member = false) : (settleAll typeName members).filter p = members.filter p := by
  rw [settleAll_eq, filter_settle typeName (once.sublist ids_settle) (foreign .destructor (by decide)),
    filter_settle typeName once (foreign .constructor (by decide))]

include once listed

theorem filter_settleAll_of_kind {p : Node → Bool} (own : ∀ other ∈ kinds, other ≠ kind →
    ∀ member, hasKind other member ∨ isHook other member → p member = false) :
    ∃ before, (before.map Node.id).Nodup ∧ target? kind before = target? kind members ∧
      mergedHooks kind before = mergedHooks kind members ∧
      before.filter (hasKind kind) = members.filter (hasKind kind) ∧
      (settleAll typeName members).filter p = (settle kind typeName before).filter p := by
  obtain rfl | rfl : kind = .constructor ∨ kind = .destructor := by simpa [kinds] using listed
  · refine ⟨members, once, rfl, rfl, rfl, ?_⟩
    rw [settleAll_eq]
    exact filter_settle typeName (once.sublist ids_settle) (own .destructor (by decide) (by decide))
  · have differ : MethodKind.constructor ≠ .destructor := by decide
    refine ⟨settle .constructor typeName members, once.sublist ids_settle,
      target?_settle once rfl rfl differ, mergedHooks_settle once rfl rfl differ, ?_, rfl⟩
    exact filter_settle typeName once fun member is => (excludes rfl rfl differ is).2

theorem filter_hasKind_settleAll (few : members.countP (hasKind kind) ≤ 1) :
    (settleAll typeName members).filter (hasKind kind) = (target? kind members).toList.map
      (extend kind typeName ((mergedHooks kind members).flatMap bodyStmts)) := by
  have lifecycle := isLifecycle_of_mem listed
  obtain ⟨before, once, target, merged, same, all⟩ := filter_settleAll_of_kind once listed
    fun other also differ member is => (excludes (isLifecycle_of_mem also) lifecycle differ is).2
  rw [List.countP_eq_length_filter, ← same, ← List.countP_eq_length_filter] at few
  rw [all, filter_hasKind_settle once few, target, merged]

theorem isHook_settleAll : ∀ member ∈ settleAll typeName members, isHook kind member = false := by
  have lifecycle := isLifecycle_of_mem listed
  obtain ⟨before, once, -, -, -, all⟩ := filter_settleAll_of_kind once listed
    fun other also differ member is => (excludes (isLifecycle_of_mem also) lifecycle differ is).1
  have none : (settle kind typeName before).filter (isHook kind) = [] := by
    rw [List.filter_eq_nil_iff]
    intro member settled
    simp [isHook_settle once lifecycle member settled]
  rw [none, List.filter_eq_nil_iff] at all
  simpa using all

variable (few : members.countP (hasKind kind) ≤ 1)

include few

theorem mem_settleAll_of_kind : (member ∈ settleAll typeName members ∧ hasKind kind member) ↔
    ∃ target, target? kind members = some target ∧
      extend kind typeName ((mergedHooks kind members).flatMap bodyStmts) target = member := by
  rw [← List.mem_filter, filter_hasKind_settleAll once listed few]
  simp

theorem bodyStmts_settleAll (inside : member ∈ settleAll typeName members)
    (has : hasKind kind member) : bodyStmts member =
      (members.filter (hasKind kind)).flatMap bodyStmts ++
        (members.filter (isHook kind)).flatMap bodyStmts := by
  obtain ⟨target, found, rfl⟩ := (mem_settleAll_of_kind once listed few).1 ⟨inside, has⟩
  obtain ⟨decl, shape⟩ := method_of_target? found
  rw [bodyStmts_extend shape, ← List.flatMap_append,
    parts_eq once (isLifecycle_of_mem listed) few, found]
  rfl

end All

theorem settleAll_of_no_hooks
    (noHook : ∀ kind ∈ kinds, ∀ member ∈ members, isHook kind member = false)
    (regular : ∀ member ∈ members, member.Regular) : settleAll typeName members = members := by
  rw [settleAll_eq, settle_of_no_hooks (noHook .constructor (by decide)) regular,
    settle_of_no_hooks (noHook .destructor (by decide)) regular]

section Settling

variable {g : Node → Node} (typeName : String) (kept : ∀ member ∈ members, Node.Kept member (g member))

include kept

theorem filter_kept {test : Node → Bool}
    (procedures : ∀ member, test member → member.shape.isType = false) :
    (members.map g).filter test = members.filter test := by
  have none (member : Node) (isType : member.shape.isType) : test member = false := by
    rw [Bool.eq_false_iff]
    intro passes
    simp [procedures member passes] at isType
  apply Node.filter_image
  · intro member listed
    have kept := kept member listed
    cases isType : member.shape.isType with
    | false => rw [kept.fixed isType]
    | true => rw [none _ (kept.isType.trans isType), none _ isType]
  · exact fun member listed passes => (kept member listed).fixed (procedures member passes)

theorem others_kept :
    List.Forall₂ Stays (members.filter isOther) ((members.map g).filter isOther) := by
  have stays : ∀ member ∈ members,
      Stays member (g member) ∧ isOther (g member) = isOther member := by
    intro member listed
    have kept := kept member listed
    cases isType : member.shape.isType with
    | false =>
      rw [kept.fixed isType]
      exact ⟨.same, rfl⟩
    | true =>
      have alsoType := kept.isType.trans isType
      exact ⟨.type isType alsoType kept.id,
        by rw [isOther_of_type isType, isOther_of_type alsoType]⟩
  have same : members.filter (isOther ∘ g) = members.filter isOther :=
    List.filter_congr fun member listed => (stays member listed).2
  rw [List.filter_map, same, List.forall₂_map_right_iff, List.forall₂_same]
  intro member listed
  exact (stays member (List.mem_of_mem_filter listed)).1

theorem settled (once : (members.map Node.id).Nodup)
    (few : ∀ kind ∈ kinds, members.countP (hasKind kind) ≤ 1) :
    Settled typeName members (settleAll typeName (members.map g)) := by
  have ids : (members.map g).map Node.id = members.map Node.id := by
    rw [List.map_map]
    exact List.map_congr_left fun member listed => (kept member listed).id
  have once' : ((members.map g).map Node.id).Nodup := by rwa [ids]
  have ofKind (kind : MethodKind) : (members.map g).filter (hasKind kind) =
      members.filter (hasKind kind) := filter_kept kept fun _ has => not_isType_of_part (.inl has)
  have hooks (kind : MethodKind) : (members.map g).filter (isHook kind) =
      members.filter (isHook kind) := filter_kept kept fun _ hook => not_isType_of_part (.inr hook)
  have few' : ∀ kind ∈ kinds, (members.map g).countP (hasKind kind) ≤ 1 := by
    intro kind listed
    rw [List.countP_eq_length_filter, ofKind, ← List.countP_eq_length_filter]
    exact few kind listed
  have target (kind : MethodKind) : target? kind (members.map g) = target? kind members := by
    simp only [target?, ← List.head?_filter, ofKind, hooks]
  constructor
  · intro kind listed
    rw [List.countP_eq_length_filter, filter_hasKind_settleAll once' listed (few' kind listed),
      List.length_map]
    cases target? kind (members.map g) <;> simp
  · intro member inside decl shape isSub none
    have isMethod : member.methodDecl? = some decl := by simp [Node.methodDecl?, shape]
    have first : isHook .constructor member = false :=
      isHook_settleAll once' (by decide) member inside
    have last : isHook .destructor member = false := isHook_settleAll once' (by decide) member inside
    simp only [isHook, isMethod, isSub, none, hookName?, Option.any_some] at first last
    exact ⟨by simpa using first, by simpa using last⟩
  · intro kind listed
    simp only [mem_settleAll_of_kind once' listed (few' kind listed), target]
    rw [exists_comm]
    simp only [exists_and_left, exists_eq', and_true]
    rw [← Option.isSome_iff_exists, target?_isSome_iff]
  · intro kind listed member inside has
    rw [bodyStmts_settleAll once' listed (few' kind listed) inside has, ofKind, hooks]
  · intro kind listed member inside has
    obtain ⟨old, found, rfl⟩ := (mem_settleAll_of_kind once' listed (few' kind listed)).1 ⟨inside, has⟩
    rw [target] at found
    exact ⟨old, (target?_cases found).1, becomes_extend (isLifecycle_of_mem listed) found _⟩
  · rw [filter_settleAll once' fun kind listed member is => not_isOther_of_part listed is]
    exact others_kept kept
  · rw [← ids, settleAll_eq]
    exact ids_settle.trans ids_settle

end Settling

/-! ### The types of a module -/

theorem typesBelow_extend {decl : MethodDecl Node} (shape : target.shape = .method decl)
    (bare : target.typesBelow = []) (added : ∀ stmt ∈ stmts, stmt.typesBelow = []) :
    (extend kind typeName stmts target).typesBelow = [] := by
  obtain ⟨kind', name, extended, -⟩ := shape_extend kind typeName shape stmts
  have inner {part : Node} (isPart : part ∈ decl.params ++ [decl.body]) : part ∈ target.children := by
    rwa [Node.children, shape]
  have parts : (extend kind typeName stmts target).children =
      decl.params ++ [decl.body.withShape (.block (decl.body.stmts ++ stmts))] := by
    rw [Node.children, extended, Shape.children]
  rw [Node.typesBelow_eq, parts, if_neg (by simp [extended, Shape.isType]), List.nil_append,
    List.flatMap_eq_nil_iff]
  intro part isPart
  rcases List.mem_append.1 isPart with isParam | isBody
  · exact Node.typesBelow_of_mem bare (Node.child_mem_descendants
      (inner (List.mem_append_left _ isParam)))
  · obtain rfl := List.mem_singleton.1 isBody
    rw [Node.typesBelow_eq, if_neg (by simp [Node.shape_withShape, Shape.isType]), List.nil_append,
      List.flatMap_eq_nil_iff]
    intro stmt isStmt
    rcases List.mem_append.1 isStmt with old | new
    · have isBody := inner (List.mem_append_right _ (List.mem_singleton.2 rfl))
      exact Node.typesBelow_of_mem bare (Node.mem_descendants_of_child isBody
        (Node.child_mem_descendants (Node.mem_children_of_stmts old)))
    · exact added stmt new

theorem typesBelow_bodyStmts (bare : Node.Bare members) (listed : member ∈ members) {stmt : Node}
    (isStmt : stmt ∈ bodyStmts member) : stmt.typesBelow = [] := by
  obtain ⟨decl, shape, isBody, isStmt⟩ := exists_body isStmt
  exact Node.typesBelow_of_mem (bare member listed (by simp [shape, Shape.isType]))
    (Node.mem_descendants_of_child isBody
      (Node.child_mem_descendants (Node.mem_children_of_stmts isStmt)))

theorem bare_settle (bare : Node.Bare members) : Node.Bare (settle kind typeName members) := by
  cases found : target? kind members with
  | none => simpa [settle, found] using bare
  | some target =>
    rw [settle_eq kind typeName found]
    intro new listed noType
    obtain ⟨old, remains, rfl⟩ := List.mem_map.1 listed
    have inside := List.mem_of_mem_filter remains
    cases isMethod : old.methodDecl? with
    | none =>
      have same : extendAt kind typeName target.id ((mergedHooks kind members).flatMap
          bodyStmts) old = old := by
        simp [extendAt, extend, isMethod]
      rw [same] at noType ⊢
      exact bare old inside noType
    | some decl =>
      have shape := Node.shape_of_methodDecl? isMethod
      have here := bare old inside (by simp [shape, Shape.isType])
      unfold extendAt
      split
      · apply typesBelow_extend shape here
        intro stmt isStmt
        obtain ⟨hook, merged, inner⟩ := List.mem_flatMap.1 isStmt
        rw [mergedHooks_of_target? found] at merged
        exact typesBelow_bodyStmts bare (List.mem_of_mem_filter (List.mem_of_mem_filter merged)) inner
      · exact here

theorem typesBelow_settleAll (typeName : String) (bare : Node.Bare members)
    (once : (members.map Node.id).Nodup) :
    (settleAll typeName members).flatMap Node.typesBelow = members.flatMap Node.typesBelow := by
  have new : Node.Bare (settleAll typeName members) := bare_settle (bare_settle bare)
  rw [new.flatMap_eq, bare.flatMap_eq, filter_settleAll once fun _ _ _ => not_isType_of_part]

theorem settleNode_isTypePass :
    Node.IsTypePass settleNode fun decl => settleAll decl.name decl.members := by
  constructor
  · exact settleNode_regroups.id
  · intro node decl shape
    rw [settleNode, shape]
    rfl
  · rintro ⟨info, shape⟩ noType
    cases shape <;> first | rfl | simp [Node.shape, Shape.isType] at noType

theorem settled_mapUp {root type : Node} {decl : TypeDecl Node} (original : root.Original)
    (inside : type ∈ root.descendants) (shape : type.shape = .type decl) :
    Settled decl.name decl.members
      (settleAll decl.name (decl.members.map (Node.mapUp settleNode))) := by
  apply settled
  · exact settleNode_isTypePass.kept original.layers inside shape
  · exact original.nodup_members inside shape
  · intro kind listed
    have lifecycle := isLifecycle_of_mem listed
    refine (List.countP_mono_left ?_).trans (original.declared type inside decl shape).single
    intro member _ has
    obtain ⟨method, isMethod, rfl⟩ := hasKind_cases has
    simp [isMethod, Shape.isSpelt, lifecycle]

end Lifecycle

open Lifecycle

theorem Draft.settleHooks_of_no_hooks {draft : Draft} (formed : draft.Formed)
    (noHook : ∀ type ∈ draft.root.descendants, ∀ decl, type.shape = .type decl →
      ∀ kind ∈ kinds, ∀ member ∈ decl.members, isHook kind member = false) :
    draft.settleHooks = (draft, 0) := by
  have root : draft.root.mapUp settleNode = draft.root := by
    apply Node.mapUp_of_fixed
    intro type inside
    cases isType : type.shape.isType with
    | false => exact settleNode_isTypePass.other type isType
    | true =>
      obtain ⟨decl, shape⟩ := (Shape.isType_iff _).1 isType
      have settled : settleAll decl.name decl.members = decl.members := by
        apply settleAll_of_no_hooks (noHook type inside decl shape)
        intro member listed
        apply formed.regular
        apply Node.mem_descendants_trans (Node.child_mem_descendants _) inside
        rwa [Node.children, shape]
      rw [settleNode, shape]
      apply withShape_self
      rw [shape]
      exact congrArg (fun members => Shape.type { decl with members }) settled.symm
  have hooks : ∀ type ∈ draft.root.typesBelow,
      dropped type = [] ∧ hookCount type = 0 ∧ takers type = [] := by
    intro type listed
    obtain ⟨inside, isType⟩ := Node.mem_typesBelow.1 listed
    obtain ⟨decl, shape⟩ := (Shape.isType_iff _).1 isType
    have isDecl : type.typeDecl? = some decl := by simp [Node.typeDecl?, shape]
    have none : ∀ kind ∈ kinds, decl.members.filter (isHook kind) = [] := by
      intro kind listed
      rw [List.filter_eq_nil_iff]
      intro member among
      simp [noHook type inside decl shape kind listed member among]
    rw [dropped, hookCount, takers, isDecl]
    refine ⟨?_, ?_, ?_⟩
    · apply List.flatMap_eq_nil_iff.2
      intro kind listed
      rw [mergedHooks_of_no_hooks (none kind listed), List.map_nil]
    · apply List.sum_eq_zero
      intro number listed
      obtain ⟨kind, among, rfl⟩ := List.mem_map.1 listed
      rw [List.countP_eq_length_filter, none kind among, List.length_nil]
    · apply List.flatMap_eq_nil_iff.2
      intro kind listed
      rw [mergedHooks_of_no_hooks (none kind listed), List.isEmpty_nil, if_pos rfl]
  have retired : draft.root.typesBelow.flatMap dropped = [] := by
    rw [List.flatMap_eq_nil_iff]
    exact fun type listed => (hooks type listed).1
  have count : (draft.root.typesBelow.map hookCount).sum = 0 := by
    apply List.sum_eq_zero
    intro number listed
    obtain ⟨type, among, rfl⟩ := List.mem_map.1 listed
    exact (hooks type among).2.1
  have taking : draft.root.typesBelow.flatMap takers = [] := by
    rw [List.flatMap_eq_nil_iff]
    exact fun type listed => (hooks type listed).2.2
  have links : draft.root.typesBelow.flatMap (bodyLinks []) = [] := by
    rw [List.flatMap_eq_nil_iff]
    intro type _
    simp [bodyLinks]
  simp only [settleHooks, root, retired, count, taking, links, List.append_nil]
  rfl

/-- Settling the hooks of a module that is read. The types stay, each with its own members, of which
the hooks are settled; and no hook is left for another time. -/
theorem Draft.settleHooks_settles {text name : String} {module : Module}
    (parsed : parseModule text name = .ok module) {after : Draft} {count : Nat}
    (settles : (ofModule module).settleHooks = (after, count)) :
    after.root.Distinct ∧
    after.root.typesBelow.map Node.id = module.root.typesBelow.map Node.id ∧
    (∀ type ∈ module.root.descendants, ∀ decl, type.shape = .type decl →
      ∃ new ∈ after.root.descendants, new.id = type.id ∧
        ∃ members, new.shape = .type { decl with members } ∧
          Settled decl.name decl.members members) ∧
    after.settleHooks = (after, 0) := by
  have original := parseModule_original parsed
  have formed : after.Formed := by
    have formed := (Prepared.read parsed).formed.settleHooks
    rwa [settles] at formed
  have root : after.root = module.root.mapUp settleNode :=
    congrArg (fun result : Draft × Nat => result.1.root) settles.symm
  have pass := settleNode_isTypePass
  have keeps (decl : TypeDecl Node) (bare : Node.Bare decl.members)
      (once : (decl.members.map Node.id).Nodup) := typesBelow_settleAll decl.name bare once
  refine ⟨formed.distinct, ?_, fun type inside decl shape => ?_, ?_⟩
  · rw [root, pass.ids_typesBelow original.layers original.distinct keeps]
  · rw [root]
    exact ⟨_, pass.mem_descendants original.layers original.distinct keeps inside shape, pass.id_mapUp type, _,
      pass.shape_mapUp shape, settled_mapUp original inside shape⟩
  · apply settleHooks_of_no_hooks formed
    intro new inside decl shape kind listed
    have among := Node.mem_typesBelow.2 ⟨inside, by simp [shape, Shape.isType]⟩
    rw [root, pass.typesBelow_mapUp original.layers original.distinct keeps, List.mem_map] at among
    obtain ⟨type, source, rfl⟩ := among
    obtain ⟨below, isType⟩ := Node.mem_typesBelow.1 source
    obtain ⟨old, oldShape⟩ := (Shape.isType_iff _).1 isType
    rw [pass.shape_mapUp oldShape] at shape
    obtain rfl := Shape.type.inj shape
    apply isHook_settleAll _ listed
    rw [List.map_map]
    simpa [Function.comp_def, pass.id_mapUp] using original.nodup_members below oldShape

/-- The statements of a hook follow those of a module. -/
theorem Draft.settleHooks_settles_made : ∃ module made hook,
    parseModule "x = 1\nSub Class_Initialize\nEnd Sub" "C" = .ok module ∧
    module.root.children = [made, hook] ∧ isHook .constructor hook ∧
    ∃ new ∈ (ofModule module).settleHooks.1.root.descendants, new.id = module.root.id ∧
      ∃ member ∈ new.children, hasKind .constructor member ∧
        bodyStmts member = bodyStmts made ++ bodyStmts hook := by
  have reads : (parseModule "x = 1\nSub Class_Initialize\nEnd Sub" "C").toOption.any fun module =>
      module.root.children.length == 2 && (module.root.children.head?.any (hasKind .constructor) &&
        module.root.children.getLast?.any (isHook .constructor)) := by
    decide +kernel
  obtain ⟨module, parsed, holds⟩ := exists_module_of_any reads
  rw [Bool.and_eq_true, beq_iff_eq, List.length_eq_two, Bool.and_eq_true] at holds
  obtain ⟨⟨made, hook, areThese⟩, isMade, isHook⟩ := holds
  rw [areThese, List.head?_cons, Option.any_some] at isMade
  rw [areThese, List.getLast?_cons_cons, List.getLast?_singleton, Option.any_some] at isHook
  have fewer : hasKind .constructor hook = false := isHook_excludes_kind isHook rfl
  obtain ⟨decl, shape⟩ := (Shape.isType_iff _).1 (parseModule_isType parsed)
  have members : decl.members = [made, hook] := by
    rwa [Node.children, shape] at areThese
  obtain ⟨-, -, settled, -⟩ := settleHooks_settles parsed rfl
  obtain ⟨new, inside, id, inner, newShape, settles⟩ :=
    settled module.root module.root.mem_descendants_self decl shape
  obtain ⟨member, listed, has⟩ := (settles.present .constructor (by decide)).2
    ⟨made, by simp [members], .inl isMade⟩
  have statements := settles.body .constructor (by decide) member listed has
  simp only [members, List.filter_cons, isMade, isHook, not_isHook_of_hasKind rfl isMade,
    fewer] at statements
  refine ⟨module, made, hook, parsed, areThese, isHook, new, inside, id, member, ?_, has, ?_⟩
  · rwa [Node.children, newShape]
  · simpa using statements

end ScriptMigration
