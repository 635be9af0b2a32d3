import Mathlib.Data.List.Forall2
import ScriptMigration.Output.Imports
import ScriptMigration.Proofs.Resolution.Accounts
import ScriptMigration.Proofs.Resolution.Judged
import ScriptMigration.Proofs.Scope.Lookups
import ScriptMigration.Proofs.SymbolTable.Declared

/-! Scripts whose code does nothing but name constants of the symbol table. Resolving one declares
nothing and leaves nothing owed, so its tree stays as it was; each name is bound to its constant, and
nothing is described by a type that has to be imported. -/
namespace ScriptMigration

namespace Descriptor

def IsPlain (script : ScriptId) : Descriptor → Prop
  | type desc =>
    match desc.base with
    | .primitive kind => kind.namespace? = none
    | .script decl _ => decl.script = script
    | .external _ => False
  | deferred _ => False
  | _ => True

variable {script : ScriptId} {descriptor : Descriptor}

theorem IsPlain.known (plain : descriptor.IsPlain script) : descriptor.isDeferred = false := by
  cases descriptor with
  | deferred decl => exact plain.elim
  | _ => rfl

theorem IsPlain.external? (plain : descriptor.IsPlain script) : descriptor.external? = none := by
  cases descriptor with
  | type desc =>
    obtain ⟨base, rank, nullable⟩ := desc
    cases base with
    | external type => exact plain.elim
    | _ => rfl
  | _ => rfl

theorem isPlain_object : object.IsPlain script := rfl

end Descriptor

theorem Node.withShape_of_shape {node : Node} {shape : Shape Node} (same : node.shape = shape) :
    node.withShape shape = node := by
  subst same
  cases node
  rfl

def Shape.isNaming : Shape Node → Bool
  | .type decl => decl.visibility.isDecided &&
    !decl.marks.needsOuter && !decl.marks.needsForm && !decl.marks.needsMissing
  | .method decl => decl.visibility.isDecided && !decl.kind.returnsValue
  | .call _ _ args => args.isEmpty
  | .block _ | .exprStmt _ | .name _ => true
  | _ => false

theorem Shape.family_of_isNaming {shape : Shape Node} (naming : shape.isNaming) :
    shape.family ≠ .localVar := by
  cases shape <;> simp [isNaming, family, isExpression] at naming ⊢

def SymbolTable.constantBinding? (symbols : SymbolTable) (name : String) : Option Binding :=
  (symbols.constant? name).map fun constant => .constant constant.print

namespace Surroundings

structure NamesConstants (around : Surroundings) (root : Node) : Prop where
  distinct : root.Distinct
  shapes : ∀ node ∈ root.descendants, node.shape.isNaming
  found : ∀ place ∈ root.placesUp, ∀ text, place.node.shape = .name text →
    ∃ constant : SymbolConstant, around.symbols.constants[constant.print]? = some constant ∧
      constant.value.IsPlain around.script ∧
      around.symbols.constantBinding? text = some (.constant constant.print) ∧
      around.find? (ScopeIndex.ofTree root).bodies place text = some (.constant constant.print)
  declared : ∀ {id : NodeId} {type : Descriptor}, around.declared[id]? = some type →
    type.IsPlain around.script

end Surroundings

theorem Surroundings.argumentFlows_nil (around : Surroundings) (notes : Notes) (callee : Node) :
    around.argumentFlows notes callee [] = [] := by
  unfold Surroundings.argumentFlows
  split
  iterate 2
    · split
      · split <;> simp
      · rfl
  · rfl

namespace ResolutionState

/-- Nothing is found out but what the names of a script are bound to, and types of this script and
primitive ones. -/
structure NamesOnly (state : ResolutionState) (around : Surroundings) (tree : Node) : Prop where
  root : state.root = tree
  bodies : state.bodies = (ScopeIndex.ofTree tree).bodies
  implicit : state.implicit = []
  obligations : ∀ owed, owed ∉ state.obligations
  plain : ∀ {id : NodeId} {descriptor : Descriptor}, state.notes.descriptor? id = some descriptor →
    descriptor.IsPlain around.script
  bound : ∀ node ∈ tree.descendants, ∀ binding, state.notes.binding? node.id = some binding →
    ∃ text, node.shape = .name text ∧ around.symbols.constantBinding? text = some binding

theorem descriptor?_of_describe {state : ResolutionState} {id other : NodeId}
    {descriptor found : Descriptor}
    (noted : (state.describe id descriptor).notes.descriptor? other = some found) :
    state.notes.descriptor? other = some found ∨ descriptor = found := by
  rcases state.describe_cases id descriptor with ⟨_, same⟩ | ⟨_, new⟩
  · exact .inl (same ▸ noted)
  · rw [new, Notes.descriptor?_describe] at noted
    split at noted
    · exact .inr (Option.some.inj noted)
    · exact .inl noted

/-- A descriptor that is noted after a judgement was noted before it, or is that of the judgement. -/
theorem descriptor?_noteJudgement {around : Surroundings} {place : Place} {typed : Judgement}
    {state : ResolutionState} {id : NodeId} {descriptor : Descriptor}
    (noted : (around.noteJudgement place typed state).notes.descriptor? id = some descriptor) :
    state.notes.descriptor? id = some descriptor ∨ typed.descriptor = some descriptor := by
  refine around.noteJudgement_induction (motive := fun after =>
    after.notes.descriptor? id = some descriptor → state.notes.descriptor? id = some descriptor ∨
      typed.descriptor = some descriptor) .inl (fun mode before _ kept noted => ?_)
    (fun owed before kept noted => ?_) (fun binding before _ kept noted => ?_)
    (fun found before isTyped kept noted => ?_) noted
  · rcases before.decide_cases place.node.id mode with ⟨_, same⟩ | ⟨_, new⟩
    · exact kept (same ▸ noted)
    · rw [new] at noted
      exact kept noted
  · rw [foldl_oblige] at noted
    exact kept noted
  · rcases before.bind_cases place.node.id binding with ⟨_, same⟩ | ⟨_, new⟩
    · exact kept (same ▸ noted)
    · rw [new] at noted
      exact kept noted
  · exact (descriptor?_of_describe noted).elim kept fun same => .inr (isTyped.trans (congrArg some same))

namespace NamesOnly

variable {around : Surroundings} {tree : Node} {state : ResolutionState} {place : Place}
  {typed : Judgement}

theorem ofFrames {after : ResolutionState} (only : state.NamesOnly around tree)
    (frames : state.Frames after) (obligations : ∀ owed, owed ∉ after.obligations)
    (plain : ∀ {id : NodeId} {descriptor : Descriptor}, after.notes.descriptor? id = some descriptor →
      descriptor.IsPlain around.script)
    (bound : ∀ node ∈ tree.descendants, ∀ binding, after.notes.binding? node.id = some binding →
      ∃ text, node.shape = .name text ∧ around.symbols.constantBinding? text = some binding) :
    after.NamesOnly around tree :=
  ⟨frames.root.trans only.root, frames.bodies.trans only.bodies, frames.implicit.trans only.implicit,
    obligations, plain, bound⟩

theorem describe (only : state.NamesOnly around tree) {descriptor : Descriptor}
    (plain : descriptor.IsPlain around.script) (id : NodeId) :
    (state.describe id descriptor).NamesOnly around tree := by
  refine only.ofFrames (state.describe_frames id descriptor) ?_ (fun noted => ?_) ?_
  · rw [obligations_describe]
    exact only.obligations
  · exact (descriptor?_of_describe noted).elim only.plain fun same => same ▸ plain
  · intro node inside binding noted
    rw [binding?_describe] at noted
    exact only.bound node inside binding noted

theorem fill (only : state.NamesOnly around tree) (final : Bool) (id : NodeId) :
    (Surroundings.defaultType final id state).NamesOnly around tree := by
  unfold Surroundings.defaultType
  split
  · exact only.describe Descriptor.isPlain_object id
  · exact only

theorem note (only : state.NamesOnly around tree) (distinct : tree.Distinct)
    (inside : place ∈ tree.placesUp) (present : Surroundings.isMissing place.node = false)
    (plain : ∀ descriptor, typed.descriptor = some descriptor → descriptor.IsPlain around.script)
    (binds : ∀ binding, typed.binding = some binding → ∃ text, place.node.shape = .name text ∧
      around.symbols.constantBinding? text = some binding) :
    (around.noteJudgement place typed state).NamesOnly around tree := by
  refine only.ofFrames (noteJudgement_frames around place typed state) (fun owed listed => ?_)
    (fun noted => ?_) fun node lies binding noted => ?_
  · rcases (Surroundings.mem_obligations_noteJudgement state).1 listed with old | owes
    · exact only.obligations owed old
    · cases owes with
      | binding isBound among =>
        obtain ⟨text, -, isConstant⟩ := binds _ isBound
        obtain ⟨constant, -, rfl⟩ := Option.map_eq_some_iff.1 isConstant
        exact List.not_mem_nil among
      | missing omitted =>
        rw [present] at omitted
        exact Bool.false_ne_true omitted
  · exact (descriptor?_noteJudgement noted).elim only.plain (plain _)
  · rw [Surroundings.binding?_noteJudgement] at noted
    split at noted
    · rename_i here
      obtain rfl : place.node = node :=
        List.inj_on_of_nodup_map distinct (Node.node_mem_of_mem_placesUp inside) lies here
      rcases Option.or_eq_some_iff.1 noted with new | ⟨-, old⟩
      · exact binds binding new
      · exact only.bound _ lies binding old
    · exact only.bound node lies binding noted

theorem plain_called (only : state.NamesOnly around tree) {callee : Node}
    (inside : callee ∈ tree.descendants) (final : Bool) {descriptor : Descriptor}
    (found : (around.callTyped final state.notes callee []).descriptor = some descriptor) :
    descriptor.IsPlain around.script := by
  have target {type : Descriptor} (leads : around.followed? state.notes callee.id = some type) :
      type.IsPlain around.script := by
    obtain ⟨first, noted, follows⟩ := Option.bind_eq_some_iff.1 leads
    have plain := only.plain noted
    rw [Descriptor.follow_of_known plain.known] at follows
    exact Option.some.inj follows ▸ plain
  have applied (taken : Typing.known final (around.followed? state.notes callee.id) =
      some descriptor) : descriptor.IsPlain around.script := by
    unfold Typing.known at taken
    split at taken
    · obtain rfl := Option.some.inj taken
      cases leads : around.followed? state.notes callee.id with
      | none => exact Descriptor.isPlain_object
      | some type => exact target leads
    · exact target taken
  unfold Surroundings.callTyped at found
  cases noted : state.notes.binding? callee.id with
  | none =>
    simp only [noted] at found
    exact applied found
  | some binding =>
    obtain ⟨text, -, isConstant⟩ := only.bound callee inside binding noted
    obtain ⟨constant, -, rfl⟩ := Option.map_eq_some_iff.1 isConstant
    simp only [noted] at found
    exact applied found

/-- A place that declares nothing and names nothing but constants is judged. -/
theorem judge (only : state.NamesOnly around tree) (naming : around.NamesConstants tree)
    (inside : place ∈ tree.placesUp) (final : Bool) (present : Surroundings.isMissing place.node = false)
    (undeclared : around.declaresAt state.bodies place = false)
    (plain : ∀ descriptor, (around.typed final state.notes state.bodies state.cache
      place).1.descriptor = some descriptor → descriptor.IsPlain around.script)
    (binds : ∀ binding, (around.typed final state.notes state.bodies state.cache
      place).1.binding = some binding → ∃ text, place.node.shape = .name text ∧
        around.symbols.constantBinding? text = some binding) :
    (around.judgeExpression final place state).NamesOnly around tree := by
  rw [Surroundings.judgeExpression_of_undeclared undeclared]
  have recorded : (around.recorded final place state).NamesOnly around tree :=
    only.ofFrames ⟨rfl, rfl, rfl⟩ only.obligations only.plain only.bound
  exact recorded.note naming.distinct inside present plain binds

theorem judge_name (only : state.NamesOnly around tree) (naming : around.NamesConstants tree)
    (inside : place ∈ tree.placesUp) (final : Bool) {text : String}
    (shape : place.node.shape = .name text) :
    (around.judgeExpression final place state).NamesOnly around tree := by
  obtain ⟨constant, known, plain, isConstant, found⟩ := naming.found place inside text shape
  rw [← only.bodies] at found
  have typed : (around.typed final state.notes state.bodies state.cache place).1 =
      .bound (.constant constant.print) (Typing.known final (some constant.value)) := by
    simp only [Surroundings.typed, shape, Surroundings.nameTyped, found,
      Surroundings.bindingDescriptor?, known, Option.map_some]
  have undeclared : around.declaresAt state.bodies place = false := by
    refine Surroundings.declaresAt_eq_false_iff.2 fun other isText => .inl ?_
    rw [Node.nameText?, shape] at isText
    rw [← Option.some.inj isText, found]
    rfl
  refine only.judge naming inside final (by simp [Surroundings.isMissing, shape]) undeclared ?_ ?_
  · rw [typed]
    intro descriptor isDescriptor
    cases final <;> exact Option.some.inj isDescriptor ▸ plain
  · rw [typed]
    intro binding isBinding
    exact ⟨text, shape, Option.some.inj isBinding ▸ isConstant⟩

theorem judge_call (only : state.NamesOnly around tree) (naming : around.NamesConstants tree)
    (inside : place ∈ tree.placesUp) (final : Bool) {parens : Bool} {callee : Node}
    (shape : place.node.shape = .call parens callee []) :
    (around.judgeExpression final place state).NamesOnly around tree := by
  have isPart : callee ∈ tree.descendants := Node.mem_descendants_trans
    (Node.child_mem_descendants (by simp [Node.children, shape, Shape.children]))
    (Node.node_mem_of_mem_placesUp inside)
  have typed : (around.typed final state.notes state.bodies state.cache place).1 =
      around.callTyped final state.notes callee [] := by
    simp only [Surroundings.typed, shape]
  have undeclared : around.declaresAt state.bodies place = false := by
    refine Surroundings.declaresAt_eq_false_iff.2 fun other isText => ?_
    rw [Node.nameText?, shape] at isText
    cases isText
  refine only.judge naming inside final (by simp [Surroundings.isMissing, shape]) undeclared ?_ ?_
  · rw [typed]
    exact fun _ => only.plain_called isPart final
  · rw [typed, (Surroundings.callTyped_silent ..).binding]
    intro _ noted
    cases noted

theorem visit (only : state.NamesOnly around tree) (naming : around.NamesConstants tree)
    (inside : place ∈ tree.placesUp) (final : Bool) :
    (around.sweepNode final state place).NamesOnly around tree := by
  have isNaming := naming.shapes place.node (Node.node_mem_of_mem_placesUp inside)
  rw [Surroundings.sweepNode_eq]
  cases shape : place.node.shape with
  | type decl | block stmts | exprStmt expr =>
    simp only [Surroundings.fill, Surroundings.inflows, Surroundings.judge, shape, List.foldl_nil,
      Shape.isExpression, Bool.false_eq_true, if_false]
    exact only
  | method decl =>
    simp only [Surroundings.fill, Surroundings.inflows, Surroundings.judge, shape, List.foldl_nil,
      Shape.isExpression, Bool.false_eq_true, if_false]
    exact only.fill final _
  | name text =>
    simp only [Surroundings.fill, Surroundings.inflows, Surroundings.judge, shape, List.foldl_nil,
      Shape.isExpression, if_true]
    exact only.judge_name naming inside final shape
  | call parens callee args =>
    rw [shape, Shape.isNaming, List.isEmpty_iff] at isNaming
    subst isNaming
    simp only [Surroundings.fill, Surroundings.inflows, Surroundings.judge, shape,
      Shape.isExpression, if_true, Surroundings.argumentFlows_nil]
    exact only.judge_call naming inside final shape
  | _ =>
    rw [shape] at isNaming
    cases isNaming

theorem walk (only : state.NamesOnly around tree) (naming : around.NamesConstants tree) (final : Bool)
    {places : List Place} (inside : ∀ place ∈ places, place ∈ tree.placesUp) :
    (around.walk final places state).NamesOnly around tree := by
  induction places generalizing state with
  | nil => exact only
  | cons place rest ih =>
    obtain ⟨here, later⟩ := List.forall_mem_cons.1 inside
    exact ih (only.visit naming here final) later

theorem sweep (only : state.NamesOnly around tree) (naming : around.NamesConstants tree) (final : Bool) :
    (around.sweep final state).NamesOnly around tree := by
  have started : { state with changed := false }.NamesOnly around tree :=
    only.ofFrames ⟨rfl, rfl, rfl⟩ only.obligations only.plain only.bound
  have walked := started.walk naming final fun place listed => only.root ▸ listed
  have still (after : ResolutionState) (clear : after.implicit = []) : after.settleImplicit = after := by
    rw [settleImplicit, clear]
  rw [show around.sweep final state = (around.walk final state.root.placesUp
    { state with changed := false }).settleImplicit from rfl, still _ walked.implicit]
  exact walked

theorem sweeps (only : state.NamesOnly around tree) (naming : around.NamesConstants tree)
    (attempts : Nat) : (around.sweeps attempts state).2.NamesOnly around tree :=
  Surroundings.sweeps_induction (motive := (·.NamesOnly around tree)) only
    (fun only => only.sweep naming false) attempts

/-- Nothing is owed or to be decided, so the tree is left as it was. -/
theorem root_settle (only : state.NamesOnly around tree) (naming : around.NamesConstants tree)
    (draft : Draft) : (around.settle draft state).root = tree ∧
      around.owed (around.undeferred draft state) = [] := by
  have marked : state.root.mapUp (Obligation.apply state.obligations) = tree := by
    rw [only.root]
    refine Node.mapUp_of_fixed fun node inside => ?_
    have unlisted (owed : Obligation) : state.obligations.contains owed = false :=
      Bool.eq_false_iff.2 fun listed => only.obligations owed (Std.HashSet.mem_iff_contains.2 listed)
    cases shape : node.shape with
    | type decl =>
      simp only [Obligation.apply, shape, Obligation.markType, unlisted, Bool.or_false]
      exact Node.withShape_of_shape shape
    | _ => simp [Obligation.apply, shape, unlisted]
  have unowed (type : Node) (inside : type ∈ tree.descendants) :
      around.newFields (around.undeferred draft state) type = [] := by
    unfold Surroundings.newFields
    cases isType : type.typeDecl? with
    | none => rfl
    | some decl =>
      have isNaming := naming.shapes type inside
      rw [Node.shape_of_typeDecl? isType] at isNaming
      simp only [Shape.isNaming, Bool.and_eq_true, Bool.not_eq_true'] at isNaming
      obtain ⟨⟨⟨-, outer⟩, form⟩, missing⟩ := isNaming
      simp [Surroundings.missingFields, Surroundings.owedFields, outer, form, missing]
  have paid : tree.mapUp (around.payFields (around.undeferred draft state)) = tree := by
    refine Node.mapUp_of_fixed fun node inside => ?_
    unfold Surroundings.payFields
    split
    · rename_i decl shape
      simp only [unowed node inside, List.map_nil, List.nil_append]
      exact Node.withShape_of_shape shape
    · rfl
  have shown : tree.mapUp Node.withVisibility = tree := by
    refine Node.mapUp_of_fixed fun node inside => ?_
    have isNaming := naming.shapes node inside
    unfold Node.withVisibility
    split <;> rename_i shape <;> simp_all [Shape.isNaming]
  refine ⟨by rw [Surroundings.root_settle, marked, paid, shown], ?_⟩
  refine List.flatMap_eq_nil_iff.2 fun type listed => unowed type ?_
  rw [show (around.undeferred draft state).root = tree from marked] at listed
  exact (List.mem_filter.1 listed).1

theorem notes_settle (only : state.NamesOnly around tree) (naming : around.NamesConstants tree)
    (draft : Draft) {id : NodeId} {descriptor : Descriptor}
    (noted : (around.settle draft state).notes.descriptor? id = some descriptor) :
    descriptor.IsPlain around.script := by
  rw [Surroundings.notes_settle, (only.root_settle naming draft).2, List.foldl_nil] at noted
  obtain ⟨first, found, rfl⟩ := Option.map_eq_some_iff.1
    ((Surroundings.descriptor?_withoutDeferred _ id).symm.trans noted)
  have plain := only.plain found
  cases first with
  | deferred decl => exact plain.elim
  | null | missing =>
    dsimp only [Surroundings.concrete]
    split
    · exact Descriptor.isPlain_object
    · exact plain
  | _ => exact plain

end NamesOnly

end ResolutionState

namespace Surroundings

variable {around : Surroundings} {root : Node} {place : Place} {text : String}

/-- No procedure has parameters or local variables. -/
theorem bodyBinding?_eq_none (shapes : ∀ node ∈ root.descendants, node.shape.isNaming) {id : NodeId}
    {scope : LocalScope} (listed : (ScopeIndex.ofTree root).bodies[id]? = some scope) :
    bodyBinding? scope text = none := by
  obtain ⟨node, inside, decl, -, shape, rfl⟩ := (ScopeIndex.ofTree_held root).bodies id scope listed
  have isNaming {part below : Node} (isPart : part ∈ decl.params ++ [decl.body])
      (lies : below ∈ part.descendants) : below.shape.isNaming := by
    refine shapes below (Node.mem_descendants_trans lies (Node.mem_descendants_trans
      (Node.child_mem_descendants ?_) inside))
    rw [Node.children, shape]
    exact isPart
  refine Option.or_eq_none_iff.2 ⟨?_, ?_⟩ <;>
    refine Option.map_eq_none_iff.2 (Option.eq_none_iff_forall_ne_some.2 fun id taken => ?_)
  · obtain ⟨below, lies, -, family⟩ := (LocalScope.ofDecl_held decl).locals taken
    exact Shape.family_of_isNaming (isNaming (List.mem_append_right _ List.mem_cons_self) lies) family
  · obtain ⟨param, among, -, isParam⟩ := (LocalScope.ofDecl_held decl).params taken
    have names := isNaming (List.mem_append_left _ among) param.mem_descendants_self
    unfold Node.paramDecl? at isParam
    split at isParam
    · rename_i isDecl
      rw [isDecl] at names
      cases names
    · cases isParam

theorem typeBinding?_eq_none (types : around.types = (ScopeIndex.ofTree root).types)
    (holds : root.HoldsMembers)
    (undeclared : ∀ node ∈ root.descendants, ¬ node.memberName?.any (sameName · text))
    (ids : List NodeId) : around.typeBinding? text ids = none := by
  refine Option.eq_none_iff_forall_ne_some.2 fun binding isBound => ?_
  obtain ⟨type, -, member, taken, -⟩ := typeBinding?_eq_some isBound
  rw [types] at taken
  obtain ⟨scope, listed, found⟩ := Option.bind_eq_some_iff.1 taken
  obtain ⟨node, inside, decl, outer, -, shape, rfl, -⟩ :=
    (ScopeIndex.ofTree_held root).types type scope listed
  have isPart {part : Node} (among : part ∈ decl.members) : part ∈ node.children := by
    rw [Node.children, shape]
    exact among
  rw [MemberScope.find?_ofDecl fun part among => holds node inside (by rw [shape]; rfl) part
    (isPart among)] at found
  have answers := List.find?_some found
  exact undeclared member (Node.mem_descendants_trans (Node.child_mem_descendants
    (isPart (List.mem_of_find?_eq_some found))) inside) answers

/-- A name that is declared nowhere is looked up in the symbol table. -/
theorem find?_of_undeclared (form : around.form = none)
    (included : around.dependencies.find? text = none)
    (types : around.types = (ScopeIndex.ofTree root).types)
    (holds : root.HoldsMembers) (shapes : ∀ node ∈ root.descendants, node.shape.isNaming)
    (undeclared : ∀ node ∈ root.descendants, ¬ node.memberName?.any (sameName · text))
    (placed : place ∈ root.placesUp) :
    around.find? (ScopeIndex.ofTree root).bodies place text = around.symbolBinding? text := by
  have own : (place.method?.bind fun node => (node.methodDecl?.filter fun decl =>
      isOwnResult place decl text).map fun _ => Binding.returnValue node.id) = none := by
    refine Option.bind_eq_none_iff.2 fun method isMethod => Option.map_eq_none_iff.2 ?_
    refine Option.filter_eq_none_iff.2 fun decl isDecl => ?_
    have isNaming := shapes method (Node.around_subset placed (Place.isMethod_of_method? isMethod).1)
    rw [Node.shape_of_methodDecl? isDecl, Shape.isNaming, Bool.and_eq_true, Bool.not_eq_true'] at isNaming
    simp [isOwnResult, isNaming.2]
  have inBody : ((place.method?.bind fun node => (ScopeIndex.ofTree root).bodies[node.id]?).bind
      (bodyBinding? · text)) = none := by
    refine Option.bind_eq_none_iff.2 fun scope isScope => ?_
    obtain ⟨method, -, listed⟩ := Option.bind_eq_some_iff.1 isScope
    exact bodyBinding?_eq_none shapes listed
  have onForm : around.onForm text = false := by simp [onForm, form]
  simp only [find?, own, form, inBody, typeBinding?_eq_none types holds undeclared, included, onForm,
    Option.filter_none, Option.map_none, Option.none_or, Bool.false_eq_true, if_false]

end Surroundings

variable {symbols : SymbolTable} {options : MigrationOptions} {store : ScriptStore}
  {id : ScriptId} {script : Script} {draft : Draft}

/-- When a script is resolved whose code does nothing but name constants, its tree stays as it was, its
names are bound to the constants, and no other node is bound or described by a type that has to be
imported. -/
theorem ScriptStore.resolve_names (cache : MemberMemo) (listed : store.get? id = some script)
    (read : script.draft? = some draft) (prepared : draft.Prepared)
    (naming : (Surroundings.forScript symbols options store id script draft).NamesConstants draft.root) :
    ∃ resolved, (store.resolve symbols options cache id).store.draft? id = some resolved ∧
      resolved.root = draft.root ∧
      (∀ node descriptor, resolved.notes.descriptor? node = some descriptor → descriptor.IsPlain id) ∧
      ∀ node ∈ draft.root.descendants, resolved.notes.binding? node.id =
        node.nameText?.bind symbols.constantBinding? := by
  obtain ⟨resolved, found, concludes⟩ := resolve_concludes symbols options cache listed read prepared
  have concludes := concludes _ rfl
  generalize isAround : Surroundings.forScript symbols options store id script draft = around at *
  have isSymbols : around.symbols = symbols := by rw [← isAround]; rfl
  have isScript : around.script = id := by rw [← isAround]; rfl
  have starts : (around.start draft cache).NamesOnly around draft.root := by
    obtain ⟨described, unbound⟩ := Surroundings.start_notes around cache prepared.formed.unknown
    refine ⟨rfl, rfl, rfl, fun _ => Std.HashSet.not_mem_empty, fun noted => ?_,
      fun node _ binding noted => ?_⟩
    · rw [described] at noted
      exact naming.declared noted
    · rw [unbound] at noted
      cases noted
  have swept : (around.sweep true (around.beforeLast draft cache)).NamesOnly around draft.root :=
    (starts.sweeps naming around.options.maxAttempts).sweep naming true
  obtain ⟨root, -⟩ := swept.root_settle naming draft
  have isSettled : resolved = around.settle draft _ := concludes.settled
  refine ⟨resolved, found, by rw [isSettled]; exact root, fun node descriptor noted => ?_,
    fun node inside => ?_⟩
  · rw [isSettled] at noted
    exact isScript ▸ swept.notes_settle naming draft noted
  · rw [concludes.binding?_eq, isSymbols.symm]
    cases isText : node.nameText? with
    | none =>
      refine Option.eq_none_iff_forall_ne_some.2 fun binding noted => ?_
      obtain ⟨text, shape, -⟩ := swept.bound node inside binding noted
      rw [Node.nameText?, shape] at isText
      cases isText
    | some text =>
      have shape := Node.shape_of_nameText? isText
      obtain ⟨place, moment, typed, judged⟩ := concludes.underway.fits.sweep_judges concludes.static
        concludes.underway.older concludes.keeps.houses.layers (by rw [swept.root]; exact inside)
        (by rw [shape]; rfl)
      obtain ⟨binding, isBinding⟩ := Option.isSome_iff_exists.1
        (judged.judges.isSome_binding (by rw [judged.same, shape]; rfl))
      have noted := judged.noted.binding binding isBinding
      obtain ⟨other, shape', isConstant⟩ := swept.bound node inside binding noted
      obtain rfl := Shape.name.inj (shape.symm.trans shape')
      exact noted.trans isConstant.symm

/-- A script of which nothing else is read, and whose names stand for constants unless it declares
them. -/
theorem ScriptStore.alone_names {module : Module} {text name : String} {script : Script}
    (parsed : parseModule text name = .ok module) (listed : (alone module).get? ⟨0⟩ = some script)
    (shapes : ∀ node ∈ module.root.descendants, node.shape.isNaming)
    (constants : ∀ node ∈ module.root.descendants, ∀ text, node.nameText? = some text →
      (∀ other ∈ module.root.descendants, ¬ other.memberName?.any (sameName · text)) ∧
      ∃ constant, symbols.constant? text = some constant ∧
        symbols.constants[constant.print]? = some constant ∧ constant.value.IsPlain ⟨0⟩) :
    (Surroundings.forScript symbols options (alone module) ⟨0⟩ script (.ofModule module)).NamesConstants
      module.root := by
  obtain rfl := Option.some.inj listed
  have prepared : (Draft.ofModule module).Prepared := .read parsed
  have distinct : module.root.Distinct := prepared.formed.distinct
  refine ⟨distinct, shapes, fun place placed text shape => ?_, fun {id type} found => ?_⟩
  · obtain ⟨undeclared, constant, known, isPrint, plain⟩ := constants place.node
      (Node.node_mem_of_mem_placesUp placed) text (by rw [Node.nameText?, shape]; rfl)
    have isConstant : symbols.constantBinding? text = some (.constant constant.print) :=
      congrArg (Option.map fun constant : SymbolConstant => Binding.constant constant.print) known
    refine ⟨constant, isPrint, plain, isConstant, ?_⟩
    refine (Surroundings.find?_of_undeclared rfl ?_ rfl
      prepared.asRead.layers.nested.holdsMembers shapes undeclared placed).trans ?_
    · simp [Surroundings.forScript, Surroundings.ofScript, Surroundings.withDeclared,
        IncludedNames.ofScripts, IncludedNames.find?]
    · exact Option.or_eq_some_iff.2 (.inl isConstant)
  · obtain ⟨⟨node, context⟩, among, rfl, declares⟩ := Surroundings.declared_cases found
    obtain ⟨place, placed, same⟩ : ∃ place ∈ module.root.places,
        (place.node, place.types.map Node.id) = (node, context) := by
      rcases List.mem_append.1 among with inTree | retired
      · exact List.mem_map.1 inTree
      · exact absurd retired List.not_mem_nil
    obtain ⟨rfl, -⟩ := Prod.mk.inj same
    have isNaming := shapes place.node (Node.node_mem_of_mem_places placed)
    unfold Surroundings.declaredType? at declares
    cases shape : place.node.shape with
    | type decl =>
      rw [shape] at declares
      exact Option.some.inj declares ▸ rfl
    | method decl =>
      rw [shape, Shape.isNaming, Bool.and_eq_true, Bool.not_eq_true'] at isNaming
      simp only [shape, isNaming.2, Bool.false_eq_true, if_false] at declares
      exact Option.some.inj declares ▸ rfl
    | field | localVar | param =>
      rw [shape] at isNaming
      cases isNaming
    | _ =>
      rw [shape] at declares
      cases declares

namespace Node

def calledName? (stmt : Node) : Option String :=
  match stmt.shape with
  | .exprStmt call =>
    match call.shape with
    | .call _ callee args => if args.isEmpty then callee.nameText? else none
    | _ => none
  | _ => none

structure RunsIn (root method body : Node) (stmts : List Node) : Prop where
  isMethod : root.children = [method]
  isBody : method.children = [body]
  shape : body.shape = .block stmts

/-- Whether a module is one procedure whose statements are the given names, and declares none of them. -/
def calls (root : Node) (names : List String) : Bool :=
  match root.children with
  | [method] =>
    match method.children with
    | [body] =>
      [root, method].all (fun node => node.shape.isNaming && node.nameText?.isNone &&
        names.all fun name => !node.memberName?.any (sameName · name)) &&
      body.shape.family == .block && body.stmts.map calledName? == names.map some
    | _ => false
  | _ => false

variable {root method body stmt : Node} {stmts : List Node} {names : List String} {text : String}

theorem RunsIn.descendants_eq (runs : root.RunsIn method body stmts) :
    root.descendants = root :: method :: body :: stmts.flatMap descendants := by
  rw [root.descendants_eq, runs.isMethod, List.flatMap_singleton, method.descendants_eq, runs.isBody,
    List.flatMap_singleton, body.descendants_eq, children, runs.shape]
  rfl

theorem exists_of_calls (calls : root.calls names) : ∃ method body stmts,
    root.RunsIn method body stmts ∧ stmts.map calledName? = names.map some ∧
      ∀ node ∈ [root, method], node.shape.isNaming ∧ node.nameText? = none ∧
        ∀ name ∈ names, ¬ node.memberName?.any (sameName · name) := by
  unfold Node.calls at calls
  split at calls
  · rename_i method isMethod
    split at calls
    · rename_i body isBody
      simp only [Bool.and_eq_true, List.all_eq_true, Option.isNone_iff_eq_none, Bool.not_eq_true',
        beq_iff_eq] at calls
      obtain ⟨⟨own, isBlock⟩, same⟩ := calls
      obtain ⟨stmts, shape⟩ := (Shape.family_eq_block_iff _).1 isBlock
      refine ⟨method, body, stmts, ⟨isMethod, isBody, shape⟩, ?_, fun node listed => ?_⟩
      · rwa [Node.stmts, shape] at same
      · obtain ⟨⟨naming, nameless⟩, undeclared⟩ := own node listed
        exact ⟨naming, nameless, fun name among => Bool.eq_false_iff.1 (undeclared name among)⟩
    · cases calls
  · cases calls

theorem shapes_of_calledName? (named : stmt.calledName? = some text) : ∃ call callee parens,
    stmt.shape = .exprStmt call ∧ call.shape = .call parens callee [] ∧ callee.shape = .name text ∧
      stmt.descendants = [stmt, call, callee] := by
  unfold calledName? at named
  split at named
  · rename_i call isCall
    split at named
    · rename_i parens callee args isCallee
      split at named
      · rename_i empty
        obtain rfl := List.isEmpty_iff.1 empty
        have isText := shape_of_nameText? named
        refine ⟨call, callee, parens, isCall, isCallee, isText, ?_⟩
        simp [Node.descendants_eq, Node.children, isCall, isCallee, isText, Shape.children]
      · cases named
    · cases named
  · cases named

end Node

theorem ScriptStore.alone_calls {module : Module} {text name : String} {script : Script}
    {constants : List SymbolConstant} (parsed : parseModule text name = .ok module)
    (listed : (alone module).get? ⟨0⟩ = some script)
    (calls : module.root.calls (constants.map (·.name)))
    (known : ∀ constant ∈ constants, symbols.constants[constant.print]? = some constant ∧
      constant.value.IsPlain ⟨0⟩) :
    (Surroundings.forScript symbols options (alone module) ⟨0⟩ script (.ofModule module)).NamesConstants
      module.root := by
  obtain ⟨method, body, stmts, runs, called, own⟩ := Node.exists_of_calls calls
  have stmt {node : Node} (among : node ∈ stmts) :
      ∃ constant ∈ constants, node.calledName? = some constant.name := by
    have isName := List.mem_map_of_mem (f := Node.calledName?) among
    rw [called, List.map_map] at isName
    obtain ⟨constant, isConstant, same⟩ := List.mem_map.1 isName
    exact ⟨constant, isConstant, same.symm⟩
  -- the module and its procedure are as was checked, and the rest are blocks, statements and expressions
  have each {node : Node} (inside : node ∈ module.root.descendants) : node ∈ [module.root, method] ∨
      node.shape.isNaming ∧ node.memberName? = none ∧
        ∀ text, node.nameText? = some text → ∃ constant ∈ constants, constant.name = text := by
    rw [runs.descendants_eq, List.mem_cons, List.mem_cons, List.mem_cons, List.mem_flatMap] at inside
    rcases inside with rfl | rfl | rfl | ⟨line, among, inside⟩
    · exact .inl List.mem_cons_self
    · exact .inl (List.mem_cons_of_mem _ List.mem_cons_self)
    · refine .inr ?_
      simp [Node.memberName?, Node.nameText?, runs.shape, Shape.isNaming, Shape.declName?, Shape.nameText?]
    · obtain ⟨constant, isConstant, named⟩ := stmt among
      obtain ⟨call, callee, parens, isCall, isCallee, isText, parts⟩ := Node.shapes_of_calledName? named
      rw [parts] at inside
      simp only [List.mem_cons, List.not_mem_nil, or_false] at inside
      refine .inr ?_
      rcases inside with rfl | rfl | rfl
      · simp [Node.memberName?, Node.nameText?, isCall, Shape.isNaming, Shape.declName?, Shape.nameText?]
      · simp [Node.memberName?, Node.nameText?, isCallee, Shape.isNaming, Shape.declName?, Shape.nameText?]
      · refine ⟨by rw [isText]; rfl, by rw [Node.memberName?, isText]; rfl, fun text isName => ?_⟩
        rw [Node.nameText?, isText] at isName
        exact ⟨constant, isConstant, Option.some.inj isName⟩
  refine alone_names parsed listed (fun node inside => ?_) fun node inside text isText => ?_
  · exact (each inside).elim (fun isOwn => (own node isOwn).1) (·.1)
  · obtain ⟨constant, isConstant, rfl⟩ : ∃ constant ∈ constants, constant.name = text :=
      (each inside).elim (fun isOwn => by rw [(own node isOwn).2.1] at isText; cases isText)
        (·.2.2 text isText)
    obtain ⟨isPrint, plain⟩ := known constant isConstant
    refine ⟨fun other lies => ?_, constant, isPrint, isPrint, plain⟩
    rcases each lies with isOwn | ⟨-, nameless, -⟩
    · exact (own other isOwn).2.2 _ (List.mem_map_of_mem isConstant)
    · simp [nameless]

/-- A draft of one procedure, each statement of which names one of the given constants, and nothing of
which is described by a type that has to be imported. -/
structure Draft.CallsConstants (draft : Draft) (script : ScriptId) (constants : List SymbolConstant) :
    Prop where
  plain : ∀ node descriptor, draft.notes.descriptor? node = some descriptor → descriptor.IsPlain script
  runs : ∃ method body stmts, draft.root.RunsIn method body stmts ∧
    (∀ id ∈ [draft.root.id, method.id, body.id], draft.notes.binding? id = none) ∧
    List.Forall₂ (fun stmt constant => stmt.descendants.filterMap (draft.notes.binding? ·.id) =
      [.constant constant.print]) stmts constants

theorem Node.filterMap_of_calledName? {stmt : Node} {name : String} {notes : Notes}
    {meaning : String → Option Binding} (named : stmt.calledName? = some name)
    (bound : ∀ node ∈ stmt.descendants, notes.binding? node.id = node.nameText?.bind meaning) :
    stmt.descendants.filterMap (notes.binding? ·.id) = (meaning name).toList := by
  obtain ⟨call, callee, parens, isCall, isCallee, isText, parts⟩ := shapes_of_calledName? named
  rw [parts] at bound ⊢
  have ofStmt : notes.binding? stmt.id = none := by
    rw [bound stmt (by simp), nameText?, isCall]
    rfl
  have ofCall : notes.binding? call.id = none := by
    rw [bound call (by simp), nameText?, isCallee]
    rfl
  have ofCallee : notes.binding? callee.id = meaning name := by
    rw [bound callee (by simp), nameText?, isText]
    rfl
  cases isMeaning : meaning name <;> simp [ofStmt, ofCall, ofCallee, isMeaning]

theorem Draft.CallsConstants.of_bound {draft : Draft} {constants : List SymbolConstant}
    (plain : ∀ node descriptor, draft.notes.descriptor? node = some descriptor → descriptor.IsPlain id)
    (calls : draft.root.calls (constants.map (·.name)))
    (bound : ∀ node ∈ draft.root.descendants, draft.notes.binding? node.id =
      node.nameText?.bind symbols.constantBinding?)
    (known : ∀ constant ∈ constants, symbols.constants[constant.print]? = some constant) :
    draft.CallsConstants id constants := by
  obtain ⟨method, body, stmts, runs, called, own⟩ := Node.exists_of_calls calls
  have inside {node : Node} (among : node = draft.root ∨ node = method ∨ node = body ∨
      ∃ stmt ∈ stmts, node ∈ stmt.descendants) : node ∈ draft.root.descendants := by
    rwa [runs.descendants_eq, List.mem_cons, List.mem_cons, List.mem_cons, List.mem_flatMap]
  refine ⟨plain, method, body, stmts, runs, fun id listed => ?_, ?_⟩
  · have nameless {node : Node} (lies : node ∈ draft.root.descendants)
        (nameless : node.nameText? = none) : draft.notes.binding? node.id = none := by
      rw [bound node lies, nameless]
      rfl
    rw [List.mem_cons, List.mem_cons, List.mem_singleton] at listed
    rcases listed with rfl | rfl | rfl
    · exact nameless (inside (.inl rfl)) (own _ List.mem_cons_self).2.1
    · exact nameless (inside (.inr (.inl rfl))) (own _ (List.mem_cons_of_mem _ List.mem_cons_self)).2.1
    · exact nameless (inside (.inr (.inr (.inl rfl)))) (by rw [Node.nameText?, runs.shape]; rfl)
  · have named : List.Forall₂ (fun stmt constant => stmt.calledName? = some constant.name) stmts
        constants := by
      rw [List.map_map, ← List.forall₂_eq_eq_eq, List.forall₂_map_left_iff,
        List.forall₂_map_right_iff] at called
      exact called
    rw [List.forall₂_iff_zip] at named ⊢
    refine ⟨named.1, fun {stmt constant} paired => ?_⟩
    obtain ⟨isStmt, isConstant⟩ := List.of_mem_zip paired
    have meaning : symbols.constantBinding? constant.name = some (.constant constant.print) :=
      congrArg (Option.map fun constant : SymbolConstant => Binding.constant constant.print)
        (known constant isConstant)
    rw [Node.filterMap_of_calledName? (named.2 paired) fun node lies =>
      bound node (inside (.inr (.inr (.inr ⟨stmt, isStmt, lies⟩)))), meaning]
    rfl

/-- A script whose procedure names some constants of the symbol table is resolved to such a draft. -/
theorem ScriptStore.exists_calls {text : String} (types : List ExternalType)
    (constants : List SymbolConstant)
    (calls : (parseModule text "M").toOption.any (·.root.calls (constants.map (·.name))))
    (apart : (types.map ExternalType.print).Nodup) (names : (constants.map SymbolConstant.print).Nodup)
    (plain : ∀ constant ∈ constants, constant.value.IsPlain ⟨0⟩) :
    ∃ module resolved, parseModule text "M" = .ok module ∧
      ((alone module).resolve (.listing types constants) {} (.withCapacity 8) ⟨0⟩).store.draft? ⟨0⟩ =
        some resolved ∧ resolved.CallsConstants ⟨0⟩ constants := by
  obtain ⟨module, parsed, calls⟩ := exists_module_of_any calls
  have known (constant : SymbolConstant) (isConstant : constant ∈ constants) :=
    SymbolTable.constant?_listing apart names isConstant
  have naming : (Surroundings.forScript (.listing types constants) {} (alone module) ⟨0⟩ _
      (.ofModule module)).NamesConstants module.root :=
    alone_calls parsed rfl calls fun constant isConstant =>
      ⟨known constant isConstant, plain constant isConstant⟩
  obtain ⟨resolved, found, root, isPlain, bound⟩ :=
    resolve_names (.withCapacity 8) rfl rfl (.read parsed) naming
  exact ⟨module, resolved, parsed, found, .of_bound isPlain (root ▸ calls) (root ▸ bound) known⟩

end ScriptMigration
