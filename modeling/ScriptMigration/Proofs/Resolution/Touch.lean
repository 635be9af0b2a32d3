import Mathlib.Algebra.Order.BigOperators.Group.Finset
import Mathlib.Logic.Relation
import ScriptMigration.Proofs.Descriptor.Ascent
import ScriptMigration.Proofs.Resolution.Memo
import ScriptMigration.Proofs.Resolution.Visit
import ScriptMigration.Proofs.Syntax.Rebuild

/-! What a visit can do to a state. A visit is a sequence of touches, and each touch changes the
notes of the visited node, or lets a declaration rise, or declares a new variable. Everything that
holds throughout a resolution is shown for one touch. -/
namespace ScriptMigration

/-- What the notes of a node come from. An expression is judged anew whenever it is visited, a
property is described as its accessors are, and everything else takes what flows into it. -/
inductive Role where
  | expression | property | other
deriving DecidableEq, Repr

def Shape.Family.role : Shape.Family → Role
  | .expression => .expression
  | .property => .property
  | _ => .other

/-- The node that a property takes its type from: its getter, or else the last parameter of a
setter. -/
def PropertyDecl.source? (decl : PropertyDecl Node) : Option Node :=
  match decl.getter with
  | some getter => some getter
  | none => ((decl.letter.or decl.setter).bind Node.methodDecl?).bind (·.params.getLast?)

/-- The declaration of a procedure that a name is bound to. -/
def Binding.target? : Binding → Option NodeId
  | .returnValue decl | .localVar decl | .param decl => some decl
  | _ => none

/-- An identity in use of a node that takes what flows into it. -/
structure Role.Plain (roles : NodeId → Role) (bound : Nat) (id : NodeId) : Prop where
  role : roles id = .other
  small : id.index < bound

theorem Role.Plain.mono {roles : NodeId → Role} {bound bound' : Nat} {id : NodeId}
    (plain : Plain roles bound id) (larger : bound ≤ bound') : Plain roles bound' id :=
  ⟨plain.role, Nat.lt_of_lt_of_le plain.small larger⟩

/-- The identities of a tree are distinct and below a bound, its nodes have the given roles, and no
property takes its type from an expression or another property. -/
structure Node.Conforms (root : Node) (roles : NodeId → Role) (bound : Nat) : Prop where
  distinct : root.Distinct
  role : ∀ node ∈ root.descendants, roles node.id = node.shape.family.role
  small : ∀ node ∈ root.descendants, node.id.index < bound
  source : ∀ node ∈ root.descendants, ∀ decl source, node.shape = .property decl →
    decl.source? = some source → roles source.id = .other

/-- What the surroundings of a script tell about its nodes agrees with their roles. -/
structure Surroundings.Fits (around : Surroundings) (roles : NodeId → Role) (bound : Nat) :
    Prop where
  member : ∀ {type : NodeId} {name : String} {member : Node}, around.types[type]?.bind (·.find? name) =
    some member → roles member.id ≠ .expression
  field : ∀ {id : NodeId} {node : Node}, around.nodes[id]? = some node → node.shape.isField →
    Role.Plain roles bound id
  param : ∀ {id : NodeId} {node param : Node} {decl : MethodDecl Node},
    around.nodes[id]? = some node → node.methodDecl? = some decl →
    param ∈ decl.params → param.paramDecl?.isSome → Role.Plain roles bound param.id
  declared : ∀ {id : NodeId} {type : Descriptor}, around.declared[id]? = some type →
    roles id = .other ∧ type.isDeferred = false
  included : ∀ {name : String} {decl : DeclRef}, around.dependencies.find? name =
    some decl → decl.script ≠ around.script

/-- Whether a name at a place is declared when it is visited. -/
def Surroundings.declaresAt (around : Surroundings) (bodies : Std.HashMap NodeId LocalScope)
    (place : Place) : Bool :=
  match place.node.nameText? with
  | some text =>
    (around.find? bodies place text).isNone && !around.explicit && Typing.mayDeclare place &&
      place.method?.isSome
  | none => false

structure ResolutionState.Fits (state : ResolutionState) (around : Surroundings)
    (roles : NodeId → Role) : Prop where
  tree : state.root.Conforms roles state.fresh
  later : ∀ id : NodeId, state.fresh ≤ id.index → roles id = .other
  body : ∀ {method id : NodeId} {scope : LocalScope} {name : String},
    state.bodies[method]? = some scope →
    scope.local? name = some id ∨ scope.param? name = some id → Role.Plain roles state.fresh id
  target : ∀ {id decl : NodeId} {binding : Binding}, state.notes.binding? id =
    some binding → binding.target? = some decl → Role.Plain roles state.fresh decl
  known : ∀ {id : NodeId} {descriptor : Descriptor}, state.notes.descriptor? id =
    some descriptor → roles id ≠ .expression → descriptor.isDeferred = false
  declared : ∀ {id : NodeId} {type : Descriptor}, around.declared[id]? = some type →
    state.notes.descriptor? id = some type
  implicit : ∀ entry ∈ state.implicit, Role.Plain roles state.fresh entry.decl.id ∧
    entry.decl.id ∉ state.root.descendants.map Node.id ∧
    entry.decl.children = [] ∧ entry.decl.shape.family = .localVar
  apart : (state.implicit.map (·.decl.id)).Nodup

/-- One of the changes that make up a visit. Expressions are only described by descriptors that are
`allowed`. -/
inductive Touch (around : Surroundings) (roles : NodeId → Role) (allowed : Descriptor → Prop)
    (place : Place) : ResolutionState → ResolutionState → Prop where
  | record (state : ResolutionState) (cache : MemberMemo) (warnings : List String)
      (obligations : Std.HashSet Obligation)
      (faithful : state.cache.Faithful around.symbols → cache.Faithful around.symbols) :
      Touch around roles allowed place state { state with cache, warnings, obligations }
  | declare {state after : ResolutionState} {id : NodeId}
      (needed : around.declaresAt state.bodies place)
      (taken : state.declare place (place.node.nameText?.getD "") = (some id, after)) :
      Touch around roles allowed place state after
  | decide (state : ResolutionState) (mode : LogicalMode)
      (role : roles place.node.id = .expression) :
      Touch around roles allowed place state
        { state with notes := state.notes.decide place.node.id mode, changed := true }
  | bind (state : ResolutionState) (binding : Binding) (role : roles place.node.id = .expression)
      (plain : ∀ decl, binding.target? = some decl → Role.Plain roles state.fresh decl) :
      Touch around roles allowed place state
        { state with notes := state.notes.bind place.node.id binding, changed := true }
  | judge (state : ResolutionState) (descriptor : Descriptor)
      (role : roles place.node.id = .expression) (allows : allowed descriptor) :
      Touch around roles allowed place state
        { state with notes := state.notes.describe place.node.id descriptor, changed := true }
  | copy (state : ResolutionState) (descriptor : Descriptor)
      (role : roles place.node.id = .property) (known : descriptor.isDeferred = false) :
      Touch around roles allowed place state
        { state with notes := state.notes.describe place.node.id descriptor, changed := true }
  | rise (state : ResolutionState) (id : NodeId) (descriptor : Descriptor)
      (plain : Role.Plain roles state.fresh id) (free : around.declared[id]? = none)
      (known : descriptor.isDeferred = false)
      (joined : ∀ current, state.notes.descriptor? id = some current →
        (descriptor == current) = false ∧ ∃ incoming, descriptor = current.join incoming) :
      Touch around roles allowed place state
        { state with notes := state.notes.describe id descriptor, changed := true }

/-- Where a variable is declared, and what that changes. -/
theorem ResolutionState.declare_eq_some {state after : ResolutionState} {place : Place}
    {name : String} {id : NodeId} (taken : state.declare place name = (some id, after)) :
    ∃ method decl, place.method? = some method ∧ method.methodDecl? = some decl ∧
      id = ⟨state.fresh⟩ ∧ after = { state with
        parents := state.parents.link ⟨state.fresh⟩ decl.body.id
        fresh := state.fresh + 1
        implicit := ⟨decl.body.id, Node.made ⟨state.fresh⟩ place.node.line
          (.localVar { name, origin := .implicit })⟩ :: state.implicit
        bodies := state.bodies.insert method.id
          ((state.bodies.getD method.id {}).addLocal name ⟨state.fresh⟩)
        changed := true } := by
  unfold declare at taken
  split at taken
  · simp at taken
  · rename_i method found
    split at taken
    · simp at taken
    · rename_i decl isMethod
      obtain ⟨first, second⟩ := Prod.mk.inj taken
      exact ⟨method, decl, found, isMethod, (Option.some.inj first).symm, second.symm⟩

theorem ResolutionState.declare_eq_none {state after : ResolutionState} {place : Place}
    {name : String} (refused : state.declare place name = (none, after)) : after = state := by
  unfold declare at refused
  split at refused
  · exact (Prod.mk.inj refused).2.symm
  · split at refused
    · exact (Prod.mk.inj refused).2.symm
    · simp at refused

namespace LocalScope

theorem local?_addLocal_cases {scope : LocalScope} {name other : String} {id found : NodeId}
    (taken : (scope.addLocal name id).local? other = some found) :
    FoldedName.of name = .of other ∧ found = id ∨ scope.local? other = some found := by
  simp only [local?, addLocal, Std.HashMap.getElem?_insertIfNew] at taken
  split at taken
  · rename_i same
    exact .inl ⟨eq_of_beq same.1, (Option.some.inj taken).symm⟩
  · exact .inr taken

theorem local?_addLocal_isSome (scope : LocalScope) (name : String) (id : NodeId) :
    ((scope.addLocal name id).local? name).isSome := by
  simp only [local?, addLocal, Std.HashMap.getElem?_insertIfNew]
  split
  · rfl
  · rename_i known
    simp only [beq_self_eq_true, true_and, Decidable.not_not] at known
    exact Std.HashMap.isSome_getElem?_iff_mem.2 known

theorem local?_addLocal_mono {scope : LocalScope} {name other : String} {id : NodeId}
    (known : (scope.local? other).isSome) : ((scope.addLocal name id).local? other).isSome := by
  simp only [local?, addLocal, Std.HashMap.getElem?_insertIfNew]
  split
  · rfl
  · exact known

/-- What has a name in the body of a procedure after a variable is declared there is that variable, or
it had the name before. -/
theorem declared_cases {bodies : Std.HashMap NodeId LocalScope} {method id owner : NodeId}
    {name : String} {scope : LocalScope}
    (listed : (bodies.insert method ((bodies.getD method {}).addLocal name id))[owner]? =
      some scope) (other : String) (found : NodeId) :
    (scope.local? other = some found →
      (owner = method ∧ FoldedName.of name = .of other ∧ found = id) ∨
        ∃ before, bodies[owner]? = some before ∧ before.local? other = some found) ∧
      (scope.param? other = some found →
        ∃ before, bodies[owner]? = some before ∧ before.param? other = some found) := by
  rw [Std.HashMap.getElem?_insert] at listed
  split at listed
  · rename_i same
    obtain rfl : method = owner := by simpa using same
    obtain rfl := Option.some.inj listed
    rw [Std.HashMap.getD_eq_getD_getElem?]
    cases noted : bodies[method]? with
    | none =>
      refine ⟨fun taken => ?_, fun taken => ?_⟩
      · rcases local?_addLocal_cases taken with isNew | old
        · exact .inl ⟨rfl, isNew⟩
        · simp [local?] at old
      · simp [param?, addLocal] at taken
    | some before =>
      refine ⟨fun taken => ?_, fun taken => ⟨before, rfl, taken⟩⟩
      rcases local?_addLocal_cases taken with isNew | old
      · exact .inl ⟨rfl, isNew⟩
      · exact .inr ⟨before, rfl, old⟩
  · exact ⟨fun taken => .inr ⟨scope, listed, taken⟩, fun taken => ⟨scope, listed, taken⟩⟩

end LocalScope

namespace ResolutionState.Fits

variable {around : Surroundings} {roles : NodeId → Role} {state : ResolutionState}

/-- Nothing that has to hold is about the cache, the messages and the obligations. -/
theorem record (fits : state.Fits around roles) (cache : MemberMemo) (warnings : List String)
    (obligations : Std.HashSet Obligation) (changed : Bool) :
    { state with cache, warnings, obligations, changed }.Fits around roles where
  tree := fits.tree
  later := fits.later
  body := fits.body
  target := fits.target
  known := fits.known
  declared := fits.declared
  implicit := fits.implicit
  apart := fits.apart

theorem describe (fits : state.Fits around roles) {id : NodeId} {descriptor : Descriptor}
    (known : roles id ≠ .expression → descriptor.isDeferred = false)
    (free : around.declared[id]? = none) :
    { state with notes := state.notes.describe id descriptor, changed := true }.Fits
      around roles := by
  refine { fits with known := ?_, declared := ?_ }
  · intro other found noted role
    simp only [Notes.descriptor?_describe] at noted
    split at noted
    · rename_i isId
      obtain rfl := Option.some.inj noted
      exact known (isId ▸ role)
    · exact fits.known noted role
  · intro other type written
    simp only [Notes.descriptor?_describe]
    split
    · rename_i isId
      rw [isId, written] at free
      exact absurd free (by simp)
    · exact fits.declared written

theorem bind (fits : state.Fits around roles) {id : NodeId} {binding : Binding}
    (plain : ∀ decl, binding.target? = some decl → Role.Plain roles state.fresh decl) :
    { state with notes := state.notes.bind id binding, changed := true }.Fits around roles := by
  refine { fits with target := ?_ }
  intro other decl found noted aims
  simp only [Notes.binding?_bind] at noted
  split at noted
  · obtain rfl := Option.some.inj noted
    exact plain decl aims
  · exact fits.target noted aims

theorem declare (fits : state.Fits around roles) {after : ResolutionState} {place : Place}
    {name : String} {id : NodeId} (taken : state.declare place name = (some id, after)) :
    after.Fits around roles := by
  obtain ⟨method, decl, _, _, rfl, rfl⟩ := ResolutionState.declare_eq_some taken
  have grows : state.fresh ≤ state.fresh + 1 := Nat.le_succ _
  have new : Role.Plain roles (state.fresh + 1) ⟨state.fresh⟩ :=
    ⟨fits.later _ (Nat.le_refl _), Nat.lt_succ_self _⟩
  have unused : (⟨state.fresh⟩ : NodeId) ∉ state.root.descendants.map Node.id := by
    intro found
    obtain ⟨node, inside, same⟩ := List.mem_map.1 found
    have small := fits.tree.small node inside
    rw [same] at small
    exact Nat.lt_irrefl _ small
  refine {
    tree := { fits.tree with
      small := fun node inside => Nat.lt_of_lt_of_le (fits.tree.small node inside) grows }
    later := fun id large => fits.later id (Nat.le_of_succ_le large)
    body := ?body
    target := fun noted aims => (fits.target noted aims).mono grows
    known := fits.known
    declared := fits.declared
    implicit := ?implicit
    apart := ?apart }
  case body =>
    intro other found scope spelt inside named
    obtain ⟨ofLocal, ofParam⟩ := LocalScope.declared_cases inside spelt found
    rcases named with isLocal | isParam
    · rcases ofLocal isLocal with ⟨_, _, rfl⟩ | ⟨before, noted, old⟩
      · exact new
      · exact (fits.body noted (.inl old)).mono grows
    · obtain ⟨before, noted, old⟩ := ofParam isParam
      exact (fits.body noted (.inr old)).mono grows
  case implicit =>
    intro entry among
    rcases List.mem_cons.1 among with rfl | old
    · exact ⟨new, unused, rfl, rfl⟩
    · obtain ⟨plain, rest⟩ := fits.implicit entry old
      exact ⟨plain.mono grows, rest⟩
  case apart =>
    refine List.nodup_cons.2 ⟨fun found => ?_, fits.apart⟩
    obtain ⟨entry, old, same⟩ := List.mem_map.1 found
    have small := (fits.implicit entry old).1.small
    rw [same] at small
    exact Nat.lt_irrefl _ small

theorem inflow_cases (fits : state.Fits around roles) {flow : Inflow} {descriptor : Descriptor}
    (plain : Role.Plain roles state.fresh flow.decl)
    (found : around.inflow? state.notes flow = some descriptor) :
    around.declared[flow.decl]? = none ∧ descriptor.isDeferred = false ∧
      ∀ current, state.notes.descriptor? flow.decl = some current →
        ∃ incoming, descriptor = current.join incoming := by
  obtain ⟨type, _, flowed⟩ := Option.bind_eq_some_iff.1 found
  unfold Surroundings.flowed? at flowed
  split at flowed
  · simp at flowed
  · rename_i free
    obtain ⟨incoming, leads, new⟩ := Option.bind_eq_some_iff.1 flowed
    have incomingKnown := Descriptor.isDeferred_of_follow leads
    have unwritten : around.declared[flow.decl]? = none :=
      Std.HashMap.getElem?_eq_none_of_contains_eq_false (by simpa using free)
    refine ⟨unwritten, ?_⟩
    cases noted : state.notes.descriptor? flow.decl with
    | none =>
      simp only [noted] at new
      split at new
      · simp at new
      · obtain rfl := Option.some.inj new
        exact ⟨incomingKnown, fun _ absurd => nomatch absurd⟩
    | some current =>
      simp only [noted] at new
      have currentKnown := fits.known noted (by rw [plain.role]; decide)
      rw [Descriptor.merge_eq_join _ currentKnown incomingKnown] at new
      obtain rfl := Option.some.inj new
      refine ⟨Descriptor.isDeferred_join currentKnown incomingKnown, fun _ same => ?_⟩
      obtain rfl := Option.some.inj same
      exact ⟨incoming, rfl⟩

end ResolutionState.Fits

namespace Touch

variable {around : Surroundings} {roles : NodeId → Role} {allowed : Descriptor → Prop}
  {place : Place} {state after : ResolutionState} {bound : Nat}

theorem fits (touch : Touch around roles allowed place state after)
    (static : around.Fits roles bound) (fits : state.Fits around roles) :
    after.Fits around roles := by
  have unwritten {id : NodeId} (role : roles id ≠ .other) : around.declared[id]? = none :=
    Option.eq_none_iff_forall_ne_some.2 fun _ written => role (static.declared written).1
  cases touch with
  | record cache warnings obligations _ => exact fits.record cache warnings obligations _
  | declare _ taken => exact fits.declare taken
  | decide mode role => exact { fits with }
  | bind binding role plain => exact fits.bind plain
  | judge descriptor role _ =>
    exact fits.describe (fun differs => absurd role differs) (unwritten (by rw [role]; decide))
  | copy descriptor role known =>
    exact fits.describe (fun _ => known) (unwritten (by rw [role]; decide))
  | rise id descriptor plain free known joined => exact fits.describe (fun _ => known) free

end Touch

def Notes.room (roles : NodeId → Role) (bound : Nat) (notes : Notes) : Nat :=
  ∑ index ∈ Finset.range bound,
    if roles ⟨index⟩ = .other then (notes.descriptor? ⟨index⟩).elim 50 Descriptor.room else 0

namespace Notes

variable {roles : NodeId → Role} {notes notes' : Notes}

theorem room_congr (same : ∀ id, roles id = .other → notes'.descriptor? id = notes.descriptor? id)
    (bound : Nat) : notes'.room roles bound = notes.room roles bound := by
  refine Finset.sum_congr rfl fun index _ => ?_
  split
  · rename_i role
    rw [same _ role]
  · rfl

theorem room_le (roles : NodeId → Role) (bound : Nat) (notes : Notes) :
    notes.room roles bound ≤ 50 * bound := by
  have each : ∀ index ∈ Finset.range bound,
      (if roles ⟨index⟩ = .other then (notes.descriptor? ⟨index⟩).elim 50 Descriptor.room else 0) ≤
        50 := by
    intro index _
    split
    · cases notes.descriptor? ⟨index⟩ with
      | none => exact Nat.le_refl _
      | some descriptor => exact Nat.le_trans descriptor.room_le (by decide)
    · exact Nat.zero_le _
  calc notes.room roles bound ≤ (Finset.range bound).card • 50 :=
        Finset.sum_le_card_nsmul _ _ _ each
    _ = 50 * bound := by simp [Nat.mul_comm]

theorem room_describe {id : NodeId} {descriptor : Descriptor} (role : roles id = .other)
    (lower : descriptor.room < (notes.descriptor? id).elim 50 Descriptor.room) (bound : Nat) :
    (notes.describe id descriptor).room roles bound ≤ notes.room roles bound ∧
      (id.index < bound →
        (notes.describe id descriptor).room roles bound < notes.room roles bound) := by
  have each (index : Nat) :
      (if roles ⟨index⟩ = .other then
        ((notes.describe id descriptor).descriptor? ⟨index⟩).elim 50 Descriptor.room else 0) ≤
      if roles ⟨index⟩ = .other then (notes.descriptor? ⟨index⟩).elim 50 Descriptor.room else 0 := by
    simp only [descriptor?_describe]
    split
    · by_cases same : id = ⟨index⟩
      · subst same
        simpa using Nat.le_of_lt lower
      · simp [same]
    · exact Nat.le_refl _
  refine ⟨Finset.sum_le_sum fun index _ => each index, fun small => ?_⟩
  refine Finset.sum_lt_sum (fun index _ => each index)
    ⟨id.index, Finset.mem_range.2 small, ?_⟩
  simpa [role] using lower

end Notes

/-- What becomes of a state in a part of a sweep in which the nodes with an identity in `visited`
are visited. -/
structure ResolutionState.Evolves (roles : NodeId → Role) (visited : NodeId → Prop)
    (state after : ResolutionState) : Prop where
  root : after.root = state.root
  fresh : state.fresh ≤ after.fresh
  /-- Notes of expressions and properties only change where these are visited. -/
  descriptor : ∀ id, ¬ visited id → roles id ≠ .other →
    after.notes.descriptor? id = state.notes.descriptor? id
  binding : ∀ id, ¬ visited id → after.notes.binding? id = state.notes.binding? id
  mode : ∀ id, ¬ visited id → after.notes.mode id = state.notes.mode id
  described : ∀ id, (state.notes.descriptor? id).isSome → (after.notes.descriptor? id).isSome
  bound : ∀ id, (state.notes.binding? id).isSome → (after.notes.binding? id).isSome
  /-- A declaration of which something is known only rises. -/
  rises : ∀ id old, roles id = .other → state.notes.descriptor? id = some old →
    ∃ new, after.notes.descriptor? id = some new ∧ old.Precedes new
  room : ∀ bound, after.notes.room roles bound ≤ state.notes.room roles bound
  /-- Declarations that keep their room keep their descriptors. -/
  quiet : after.fresh = state.fresh →
    after.notes.room roles state.fresh = state.notes.room roles state.fresh →
    ∀ id, roles id = .other → after.notes.descriptor? id = state.notes.descriptor? id
  bodies : ∀ (method : NodeId) (name : String),
    (state.bodies[method]?.bind (Surroundings.bodyBinding? · name)).isSome →
    (after.bodies[method]?.bind (Surroundings.bodyBinding? · name)).isSome
  changed : state.changed → after.changed
  /-- What reports no change leaves everything as it was. -/
  still : after.changed = false → after.notes = state.notes ∧ after.bodies = state.bodies ∧
    after.fresh = state.fresh ∧ after.implicit = state.implicit

namespace ResolutionState.Evolves

variable {roles : NodeId → Role} {visited : NodeId → Prop} {state middle after : ResolutionState}

theorem refl (state : ResolutionState) : Evolves roles visited state state where
  root := rfl
  fresh := Nat.le_refl _
  descriptor _ _ _ := rfl
  binding _ _ := rfl
  mode _ _ := rfl
  described _ known := known
  bound _ known := known
  rises _ old _ noted := ⟨old, noted, old.precedes_refl⟩
  room _ := Nat.le_refl _
  quiet _ _ _ _ := rfl
  bodies _ _ known := known
  changed known := known
  still _ := ⟨rfl, rfl, rfl, rfl⟩

theorem trans (first : Evolves roles visited state middle)
    (second : Evolves roles visited middle after) : Evolves roles visited state after where
  root := second.root.trans first.root
  fresh := Nat.le_trans first.fresh second.fresh
  descriptor id apart role := (second.descriptor id apart role).trans (first.descriptor id apart role)
  binding id apart := (second.binding id apart).trans (first.binding id apart)
  mode id apart := (second.mode id apart).trans (first.mode id apart)
  described id known := second.described id (first.described id known)
  bound id known := second.bound id (first.bound id known)
  rises id old role noted := by
    obtain ⟨mid, between, lower⟩ := first.rises id old role noted
    obtain ⟨new, found, upper⟩ := second.rises id mid role between
    exact ⟨new, found, lower.trans upper⟩
  room bound := Nat.le_trans (second.room bound) (first.room bound)
  quiet kept level id role := by
    have same : middle.fresh = state.fresh :=
      Nat.le_antisymm (kept ▸ second.fresh) first.fresh
    have lower := first.room state.fresh
    have upper := second.room state.fresh
    have firstLevel : middle.notes.room roles state.fresh = state.notes.room roles state.fresh := by
      omega
    have secondLevel : after.notes.room roles middle.fresh = middle.notes.room roles middle.fresh := by
      rw [same]
      omega
    exact (second.quiet (kept.trans same.symm) secondLevel id role).trans
      (first.quiet same firstLevel id role)
  bodies method name known := second.bodies method name (first.bodies method name known)
  changed known := second.changed (first.changed known)
  still unchanged := by
    have unchanged' : middle.changed = false := by
      cases known : middle.changed with
      | false => rfl
      | true =>
        rw [second.changed known] at unchanged
        exact absurd unchanged (by decide)
    obtain ⟨notes, bodies, fresh, implicit⟩ := second.still unchanged
    obtain ⟨notes', bodies', fresh', implicit'⟩ := first.still unchanged'
    exact ⟨notes.trans notes', bodies.trans bodies', fresh.trans fresh', implicit.trans implicit'⟩

theorem mono {visited' : NodeId → Prop} (evolves : Evolves roles visited state after)
    (more : ∀ id, visited id → visited' id) : Evolves roles visited' state after :=
  { evolves with
    descriptor := fun id apart role => evolves.descriptor id (fun known => apart (more id known)) role
    binding := fun id apart => evolves.binding id fun known => apart (more id known)
    mode := fun id apart => evolves.mode id fun known => apart (more id known) }

private theorem ofNotes {notes : Notes}
    (descriptor : ∀ id, ¬ visited id → notes.descriptor? id = state.notes.descriptor? id)
    (binding : ∀ id, ¬ visited id → notes.binding? id = state.notes.binding? id)
    (mode : ∀ id, ¬ visited id → notes.mode id = state.notes.mode id)
    (described : ∀ id, (state.notes.descriptor? id).isSome → (notes.descriptor? id).isSome)
    (bound : ∀ id, (state.notes.binding? id).isSome → (notes.binding? id).isSome)
    (declaration : ∀ id, roles id = .other → ¬ visited id) :
    Evolves roles visited state { state with notes, changed := true } where
  root := rfl
  fresh := Nat.le_refl _
  descriptor id apart _ := descriptor id apart
  binding := binding
  mode := mode
  described := described
  bound := bound
  rises id old role noted :=
    ⟨old, (descriptor id (declaration id role)).trans noted, old.precedes_refl⟩
  room := fun _ => Nat.le_of_eq (Notes.room_congr (fun id role => descriptor id (declaration id role)) _)
  quiet _ _ id role := descriptor id (declaration id role)
  bodies _ _ known := known
  changed _ := rfl
  still unchanged := nomatch unchanged

theorem ofJoin {id : NodeId} {descriptor : Descriptor} (plain : Role.Plain roles state.fresh id)
    (joined : ∀ current, state.notes.descriptor? id = some current →
      (descriptor == current) = false ∧ ∃ incoming, descriptor = current.join incoming) :
    Evolves roles visited state
      { state with notes := state.notes.describe id descriptor, changed := true } := by
  have lower : descriptor.room < (state.notes.descriptor? id).elim 50 Descriptor.room := by
    cases noted : state.notes.descriptor? id with
    | none => exact Nat.lt_of_le_of_lt descriptor.room_le (by decide)
    | some current =>
      obtain ⟨differs, incoming, rfl⟩ := joined current noted
      exact Descriptor.room_join differs
  have rooms := Notes.room_describe plain.role lower
  exact {
    root := rfl
    fresh := Nat.le_refl _
    descriptor := fun other apart role => by
      have differs : id ≠ other := fun same => role (same ▸ plain.role)
      simp [differs]
    binding := fun _ _ => rfl
    mode := fun _ _ => rfl
    described := fun other noted => by
      simp only [Notes.descriptor?_describe]
      split
      · rfl
      · exact noted
    bound := fun _ noted => noted
    rises := fun other old _ noted => by
      simp only [Notes.descriptor?_describe]
      split
      · rename_i same
        subst same
        obtain ⟨_, incoming, rfl⟩ := joined old noted
        exact ⟨_, rfl, old.precedes_join incoming⟩
      · exact ⟨old, noted, old.precedes_refl⟩
    room := fun bound => (rooms bound).1
    quiet := fun _ level => absurd level (Nat.ne_of_lt ((rooms state.fresh).2 plain.small))
    bodies := fun _ _ noted => noted
    changed := fun _ => rfl
    still := fun unchanged => nomatch unchanged }

private theorem bodyBinding?_addLocal {bodies : Std.HashMap NodeId LocalScope} {method id : NodeId}
    {name other : String}
    (known : (bodies[method]?.bind (Surroundings.bodyBinding? · other)).isSome) :
    ((some ((bodies.getD method {}).addLocal name id)).bind
      (Surroundings.bodyBinding? · other)).isSome := by
  cases found : bodies[method]? with
  | none => simp [found] at known
  | some scope =>
    rw [found] at known
    rw [Std.HashMap.getD_eq_getD_getElem?, found]
    simp only [Option.bind_some, Option.getD_some, Surroundings.bodyBinding?, Option.isSome_or,
      Option.isSome_map, Bool.or_eq_true] at known ⊢
    rcases known with inLocals | inParams
    · exact .inl (LocalScope.local?_addLocal_mono inLocals)
    · exact .inr inParams

theorem ofDeclare {place : Place} {name : String} {id : NodeId}
    (taken : state.declare place name = (some id, after)) : Evolves roles visited state after := by
  obtain ⟨method, decl, _, _, _, rfl⟩ := ResolutionState.declare_eq_some taken
  refine { refl state with
    fresh := Nat.le_succ _
    quiet := fun kept => absurd kept (Nat.succ_ne_self _)
    bodies := fun other name known => ?_
    changed := fun _ => rfl
    still := fun unchanged => nomatch unchanged }
  simp only [Std.HashMap.getElem?_insert]
  split
  · rename_i same
    obtain rfl : method.id = other := by simpa using same
    exact bodyBinding?_addLocal known
  · exact known

end ResolutionState.Evolves

namespace Touch

variable {around : Surroundings} {roles : NodeId → Role} {allowed : Descriptor → Prop}
  {place : Place} {state after : ResolutionState}

theorem evolves (touch : Touch around roles allowed place state after) :
    state.Evolves roles (· = place.node.id) after := by
  have own {role : Role} (isOwn : roles place.node.id = role) (differs : role ≠ .other)
      (id : NodeId) (other : roles id = .other) : ¬ id = place.node.id := by
    rintro rfl
    exact differs (isOwn.symm.trans other)
  cases touch with
  | record cache warnings obligations _ => exact { ResolutionState.Evolves.refl _ with }
  | declare _ taken => exact .ofDeclare taken
  | decide mode role =>
    refine .ofNotes (fun _ _ => rfl) (fun _ _ => rfl) (fun id apart => ?_) (fun _ known => known)
      (fun _ known => known) (own role (by decide))
    simp [Ne.symm apart]
  | bind binding role plain =>
    refine .ofNotes (fun _ _ => rfl) (fun id apart => ?_) (fun _ _ => rfl) (fun _ known => known)
      (fun id known => ?_) (own role (by decide))
    · simp [Ne.symm apart]
    · simp only [Notes.binding?_bind]
      split
      · rfl
      · exact known
  | judge descriptor role _ | copy descriptor role _ =>
    refine .ofNotes (fun id apart => ?_) (fun _ _ => rfl) (fun _ _ => rfl) (fun id known => ?_)
      (fun _ known => known) (own role (by decide))
    · simp [Ne.symm apart]
    · simp only [Notes.descriptor?_describe]
      split
      · rfl
      · exact known
  | rise id descriptor plain _ _ joined => exact .ofJoin plain joined

end Touch

end ScriptMigration
