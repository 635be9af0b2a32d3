import Mathlib.Data.List.TakeWhile
import ScriptMigration.Proofs.Resolution.Touch
import ScriptMigration.Proofs.Syntax.Tree

/-! A visit is a sequence of touches. The proof goes through what a visit reads: what a name can stand
for, what an expression is bound to, and where types flow. -/
namespace ScriptMigration

theorem Node.around_subset {root node : Node} {place : Place} (found : place ∈ root.placesUp)
    (inside : node ∈ place.around) : node ∈ root.descendants :=
  (Place.mem_of_around found inside).1

/-- A sequence of touches. -/
abbrev Touches (around : Surroundings) (roles : NodeId → Role) (allowed : Descriptor → Prop)
    (place : Place) : ResolutionState → ResolutionState → Prop :=
  Relation.ReflTransGen (Touch around roles allowed place)

namespace Touches

variable {around : Surroundings} {roles : NodeId → Role} {allowed : Descriptor → Prop}
  {place : Place} {state after : ResolutionState} {bound : Nat}

theorem evolves (touches : Touches around roles allowed place state after) :
    state.Evolves roles (· = place.node.id) after := by
  induction touches with
  | refl => exact .refl _
  | tail _ touch ih => exact ih.trans touch.evolves

theorem fits (touches : Touches around roles allowed place state after)
    (static : around.Fits roles bound) (fits : state.Fits around roles) :
    after.Fits around roles := by
  induction touches with
  | refl => exact fits
  | tail _ touch ih => exact touch.fits static ih

theorem faithful (touches : Touches around roles allowed place state after)
    (faithful : state.cache.Faithful around.symbols) : after.cache.Faithful around.symbols := by
  induction touches with
  | refl => exact faithful
  | tail _ touch ih =>
    cases touch with
    | record cache warnings obligations keeps => exact keeps ih
    | declare _ taken =>
      obtain ⟨_, _, _, _, _, rfl⟩ := ResolutionState.declare_eq_some taken
      exact ih
    | _ => exact ih

theorem decide (state : ResolutionState) (mode : LogicalMode)
    (role : roles place.node.id = .expression) :
    Touches around roles allowed place state (state.decide place.node.id mode) := by
  rcases state.decide_cases place.node.id mode with ⟨_, same⟩ | ⟨_, new⟩
  · rw [same]
  · rw [new]
    exact .single (.decide state mode role)

theorem bind (state : ResolutionState) (binding : Binding)
    (role : roles place.node.id = .expression)
    (plain : ∀ decl, binding.target? = some decl → Role.Plain roles state.fresh decl) :
    Touches around roles allowed place state (state.bind place.node.id binding) := by
  rcases state.bind_cases place.node.id binding with ⟨_, same⟩ | ⟨_, new⟩
  · rw [same]
  · rw [new]
    exact .single (.bind state binding role plain)

theorem judge (state : ResolutionState) (descriptor : Descriptor)
    (role : roles place.node.id = .expression) (allows : allowed descriptor) :
    Touches around roles allowed place state (state.describe place.node.id descriptor) := by
  rcases state.describe_cases place.node.id descriptor with ⟨_, same⟩ | ⟨_, new⟩
  · rw [same]
  · rw [new]
    exact .single (.judge state descriptor role allows)

theorem copy (state : ResolutionState) (descriptor : Descriptor)
    (role : roles place.node.id = .property) (known : descriptor.isDeferred = false) :
    Touches around roles allowed place state (state.describe place.node.id descriptor) := by
  rcases state.describe_cases place.node.id descriptor with ⟨_, same⟩ | ⟨_, new⟩
  · rw [same]
  · rw [new]
    exact .single (.copy state descriptor role known)

theorem pour (fits : state.Fits around roles) (flow : Inflow)
    (plain : Role.Plain roles state.fresh flow.decl) :
    Touches around roles allowed place state (around.pour state flow) := by
  unfold Surroundings.pour
  cases found : around.inflow? state.notes flow with
  | none => exact .refl
  | some descriptor =>
    obtain ⟨free, known, joined⟩ := fits.inflow_cases plain found
    simp only [Option.elim_some]
    rcases state.describe_cases flow.decl descriptor with ⟨_, same⟩ | ⟨differs, new⟩
    · rw [same]
    · rw [new]
      refine .single (.rise state flow.decl descriptor plain free known fun current noted => ?_)
      refine ⟨?_, joined current noted⟩
      rw [noted] at differs
      exact Bool.eq_false_iff.2 fun same => Bool.eq_false_iff.1 differs (Descriptor.beq_symm same)

theorem fill (fits : state.Fits around roles) (final : Bool) {id : NodeId}
    (plain : Role.Plain roles state.fresh id) :
    Touches around roles allowed place state (Surroundings.defaultType final id state) := by
  unfold Surroundings.defaultType
  split
  · rename_i open'
    have absent : state.notes.descriptor? id = none := by
      simp only [Bool.and_eq_true, Option.isNone_iff_eq_none] at open'
      exact open'.2
    rcases state.describe_cases id .object with ⟨_, same⟩ | ⟨_, new⟩
    · rw [same]
    · rw [new]
      refine .single (.rise state id .object plain ?_ rfl fun current noted => ?_)
      · refine Option.eq_none_iff_forall_ne_some.2 fun type written => ?_
        rw [fits.declared written] at absent
        exact absurd absent (by simp)
      · rw [absent] at noted
        exact absurd noted (by simp)
  · exact .refl

theorem pourAll (static : around.Fits roles bound) (fits : state.Fits around roles)
    (flows : List Inflow) (plain : ∀ flow ∈ flows, Role.Plain roles state.fresh flow.decl) :
    Touches around roles allowed place state (flows.foldl around.pour state) := by
  induction flows generalizing state with
  | nil => exact .refl
  | cons flow rest ih =>
    have first : Touches around roles allowed place state (around.pour state flow) :=
      pour fits flow (plain flow List.mem_cons_self)
    refine first.trans (ih (first.fits static fits) fun other later => ?_)
    exact (plain other (List.mem_cons_of_mem _ later)).mono first.evolves.fresh

end Touches

section Visit

variable {around : Surroundings} {roles : NodeId → Role} {allowed : Descriptor → Prop}
  {place : Place} {state : ResolutionState} {bound : Nat}

theorem Node.Conforms.plain {root node : Node} (tree : root.Conforms roles bound)
    (inside : node ∈ root.descendants) (role : node.shape.family.role = .other) :
    Role.Plain roles bound node.id :=
  ⟨(tree.role node inside).trans role, tree.small node inside⟩

theorem Place.isMethod_of_method? {method : Node} (found : place.method? = some method) :
    method ∈ place.around ∧ method.shape.isMethod := by
  obtain ⟨first, isMethod⟩ := Option.filter_eq_some_iff.1 found
  exact ⟨List.mem_of_find?_eq_some first, isMethod⟩

namespace ResolutionState.Fits

theorem role_expression (fits : state.Fits around roles) (inside : place ∈ state.root.placesUp)
    (expression : place.node.shape.isExpression) : roles place.node.id = .expression := by
  rw [fits.tree.role _ (Node.node_mem_of_mem_placesUp inside),
    (Shape.isExpression_iff _).1 expression]
  rfl

theorem method_plain (fits : state.Fits around roles) (inside : place ∈ state.root.placesUp)
    {method : Node} (found : place.method? = some method) :
    Role.Plain roles state.fresh method.id := by
  obtain ⟨among, isMethod⟩ := Place.isMethod_of_method? found
  refine fits.tree.plain (Node.around_subset inside among) ?_
  rw [Shape.isMethod_eq, beq_iff_eq] at isMethod
  rw [isMethod]
  rfl

end ResolutionState.Fits

namespace Surroundings

theorem memberAround?_eq_some {name : String} {types : List NodeId} {id : NodeId}
    (found : around.memberAround? name types = some id) :
    ∃ type ∈ types, ∃ member : Node, around.types[type]?.bind (·.find? name) = some member ∧
      member.id = id := by
  induction types with
  | nil => simp [memberAround?] at found
  | cons type outer ih =>
    unfold memberAround? at found
    split at found
    · rename_i member taken
      exact ⟨type, List.mem_cons_self, member, taken, Option.some.inj found⟩
    · obtain ⟨other, listed, rest⟩ := ih found
      exact ⟨other, List.mem_cons_of_mem _ listed, rest⟩

theorem typeBinding?_eq_some {name : String} {types : List NodeId} {binding : Binding}
    (found : around.typeBinding? name types = some binding) :
    ∃ type ∈ types, ∃ member : Node, around.types[type]?.bind (·.find? name) = some member ∧
      (binding = .member ⟨around.script, member.id⟩ ∨
        binding = .outer ⟨around.script, member.id⟩) := by
  cases types with
  | nil => simp [typeBinding?] at found
  | cons type outer =>
    simp only [typeBinding?] at found
    split at found
    · rename_i member taken
      exact ⟨type, List.mem_cons_self, member, taken, .inl (Option.some.inj found).symm⟩
    · obtain ⟨id, further, rfl⟩ := Option.map_eq_some_iff.1 found
      obtain ⟨type', listed, member, taken, rfl⟩ := memberAround?_eq_some further
      exact ⟨type', List.mem_cons_of_mem _ listed, member, taken, .inr rfl⟩

inductive Finding (around : Surroundings) (bodies : Std.HashMap NodeId LocalScope) (place : Place)
    (name : String) : Binding → Prop where
  | returnValue {method : Node} (found : place.method? = some method) :
      Finding around bodies place name (.returnValue method.id)
  | localVar {method : Node} {id : NodeId} {scope : LocalScope}
      (inside : place.method? = some method) (body : bodies[method.id]? = some scope)
      (found : scope.local? name = some id) : Finding around bodies place name (.localVar id)
  | param {method : Node} {id : NodeId} {scope : LocalScope}
      (inside : place.method? = some method) (body : bodies[method.id]? = some scope)
      (found : scope.param? name = some id) : Finding around bodies place name (.param id)
  | member {type : NodeId} {member : Node} (listed : type ∈ place.types.map Node.id)
      (found : around.types[type]?.bind (·.find? name) = some member) :
      Finding around bodies place name (.member ⟨around.script, member.id⟩)
  | outer {type : NodeId} {member : Node} (listed : type ∈ place.types.map Node.id)
      (found : around.types[type]?.bind (·.find? name) = some member) :
      Finding around bodies place name (.outer ⟨around.script, member.id⟩)
  | dependency {decl : DeclRef} (found : around.dependencies.find? name = some decl) :
      Finding around bodies place name (.dependency decl)
  | form : Finding around bodies place name .form
  | formMember : Finding around bodies place name (.formMember name)
  | constant (print : Fingerprint) : Finding around bodies place name (.constant print)
  | function (print : Fingerprint) : Finding around bodies place name (.function print)
  | special (word : SpecialName) : Finding around bodies place name (.special word)

theorem find?_eq_some {bodies : Std.HashMap NodeId LocalScope} {name : String} {binding : Binding}
    (found : around.find? bodies place name = some binding) :
    Finding around bodies place name binding := by
  unfold find? at found
  rcases Option.or_eq_some_iff.1 found with own | ⟨_, found⟩
  · obtain ⟨method, isMethod, own⟩ := Option.bind_eq_some_iff.1 own
    obtain ⟨_, _, rfl⟩ := Option.map_eq_some_iff.1 own
    exact .returnValue isMethod
  rcases Option.or_eq_some_iff.1 found with form | ⟨_, found⟩
  · obtain ⟨_, _, rfl⟩ := Option.map_eq_some_iff.1 form
    exact .form
  rcases Option.or_eq_some_iff.1 found with inBody | ⟨_, found⟩
  · obtain ⟨scope, ofMethod, named⟩ := Option.bind_eq_some_iff.1 inBody
    obtain ⟨method, isMethod, body⟩ := Option.bind_eq_some_iff.1 ofMethod
    rcases Option.or_eq_some_iff.1 named with taken | ⟨_, taken⟩
    · obtain ⟨id, isLocal, rfl⟩ := Option.map_eq_some_iff.1 taken
      exact .localVar isMethod body isLocal
    · obtain ⟨id, isParam, rfl⟩ := Option.map_eq_some_iff.1 taken
      exact .param isMethod body isParam
  rcases Option.or_eq_some_iff.1 found with inTypes | ⟨_, found⟩
  · obtain ⟨type, listed, member, taken, rfl | rfl⟩ := typeBinding?_eq_some inTypes
    · exact .member listed taken
    · exact .outer listed taken
  rcases Option.or_eq_some_iff.1 found with included | ⟨_, found⟩
  · obtain ⟨decl, taken, rfl⟩ := Option.map_eq_some_iff.1 included
    exact .dependency taken
  rcases Option.or_eq_some_iff.1 found with formMember | ⟨_, found⟩
  · split at formMember
    · obtain rfl := Option.some.inj formMember
      exact .formMember
    · simp at formMember
  rcases Option.or_eq_some_iff.1 found with constant | ⟨_, found⟩
  · obtain ⟨_, _, rfl⟩ := Option.map_eq_some_iff.1 constant
    exact .constant _
  rcases Option.or_eq_some_iff.1 found with function | ⟨_, special⟩
  · obtain ⟨_, _, rfl⟩ := Option.map_eq_some_iff.1 function
    exact .function _
  · obtain ⟨_, _, rfl⟩ := Option.map_eq_some_iff.1 special
    exact .special _

end Surroundings

theorem ResolutionState.Fits.find?_plain (fits : state.Fits around roles)
    (inside : place ∈ state.root.placesUp) {name : String} {binding : Binding} {decl : NodeId}
    (found : around.find? state.bodies place name = some binding)
    (aims : binding.target? = some decl) : Role.Plain roles state.fresh decl := by
  cases Surroundings.find?_eq_some found with
  | returnValue isMethod =>
    obtain rfl := Option.some.inj aims
    exact fits.method_plain inside isMethod
  | localVar _ body taken =>
    obtain rfl := Option.some.inj aims
    exact fits.body body (.inl taken)
  | param _ body taken =>
    obtain rfl := Option.some.inj aims
    exact fits.body body (.inr taken)
  | _ => simp [Binding.target?] at aims

/-- A logical operator asks all its operands; any other gives a fixed type, or one that is made of the
types of both. -/
theorem Typing.binary_cases (final : Bool) (op : BinaryOp) (left right : Option Descriptor) :
    (op.isLogical ∧ binary final op left right = logical final [left, right]) ∨
    (op.isLogical = false ∧
      ((∃ kind, binary final op left right = .ofPrimitive kind) ∨
        (∃ first second, known final left = some first ∧ known final right = some second ∧
          binary final op left right = .ofDescriptor (arithmetic op first second)) ∨
        (known final left = none ∨ known final right = none) ∧ binary final op left right = {})) := by
  unfold binary
  split
  · rename_i isLogical
    exact .inl ⟨isLogical, rfl⟩
  · rename_i plain
    refine .inr ⟨Bool.eq_false_iff.2 plain, ?_⟩
    split
    · exact .inl ⟨_, rfl⟩
    · cases op with
      | concat | div | pow | intDiv | mod => exact .inl ⟨_, rfl⟩
      | _ =>
        dsimp only
        cases known final left with
        | none => exact .inr (.inr ⟨.inl rfl, rfl⟩)
        | some first =>
          cases known final right with
          | none => exact .inr (.inr ⟨.inr rfl, rfl⟩)
          | some second => exact .inr (.inl ⟨first, second, rfl, rfl, rfl⟩)

structure Judgement.Silent (typed : Judgement) : Prop where
  binding : typed.binding = none
  declares : typed.declares = false

namespace Surroundings

variable (final : Bool)

theorem logical_silent (operands : List (Option Descriptor)) :
    (Typing.logical final operands).Silent := by
  simp only [Typing.logical]
  split
  · exact ⟨rfl, rfl⟩
  · split <;> exact ⟨rfl, rfl⟩

theorem binary_silent (op : BinaryOp) (left right : Option Descriptor) :
    (Typing.binary final op left right).Silent := by
  obtain ⟨_, same⟩ | ⟨_, ⟨_, same⟩ | ⟨_, _, _, _, same⟩ | ⟨_, same⟩⟩ :=
    Typing.binary_cases final op left right
  · exact same ▸ logical_silent final _
  all_goals exact same ▸ ⟨rfl, rfl⟩

theorem unary_silent (op : UnaryOp) (operand : Option Descriptor) :
    (Typing.unary final op operand).Silent := by
  cases op with
  | not => exact logical_silent final _
  | neg | plus => exact ⟨rfl, rfl⟩

theorem callTyped_silent (notes : Notes) (callee : Node) (args : List Node) :
    (around.callTyped final notes callee args).Silent := by
  unfold callTyped
  dsimp only
  cases notes.binding? callee.id with
  | none => exact ⟨rfl, rfl⟩
  | some binding =>
    cases binding with
    | function print =>
      dsimp only
      cases around.symbols.functions[print]? <;> exact ⟨rfl, rfl⟩
    | member decl | outer decl | dependency decl =>
      dsimp only
      cases around.calledParams? decl <;> exact ⟨rfl, rfl⟩
    | external print =>
      dsimp only
      split <;> exact ⟨rfl, rfl⟩
    | _ => exact ⟨rfl, rfl⟩

theorem memberTyped_declares (cache : MemberMemo) (target : Option Descriptor) (name : String) :
    (around.memberTyped final cache target name).1.declares = false := by
  unfold memberTyped
  split
  · split <;> rfl
  · split
    split <;> rfl
  · split <;> rfl
  · split <;> rfl
  · rfl

/-- What a member of an object can be bound to, and how it is described then. -/
inductive MemberFinding (around : Surroundings) (final : Bool) (name : String) :
    Binding → Option Descriptor → Prop where
  | late : MemberFinding around final name .late (some .object)
  | external (member : SymbolMember) :
      MemberFinding around final name (.external member.print) (some member.result)
  | inScript {type decl : DeclRef} (found : around.memberInScript? type name = some decl) :
      MemberFinding around final name (around.bindMember decl)
        (Typing.known final (around.declDescriptor? decl))
  | formMember :
      MemberFinding around final name (.formMember name) (some (around.formMemberDescriptor name))

theorem MemberFinding.target? {final : Bool} {name : String} {binding : Binding}
    {type : Option Descriptor} (finding : around.MemberFinding final name binding type) :
    binding.target? = none := by
  cases finding with
  | inScript =>
    unfold bindMember
    split <;> rfl
  | late | external | formMember => rfl

theorem memberTyped_finding (cache : MemberMemo) (target : Option Descriptor) (name : String)
    {binding : Binding}
    (found : (around.memberTyped final cache target name).1.binding = some binding) :
    ∃ type, (around.memberTyped final cache target name).1.descriptor = type ∧
      around.MemberFinding final name binding type := by
  have late (isLate : some Binding.late = some binding) :
      around.MemberFinding final name binding (some .object) := Option.some.inj isLate ▸ .late
  unfold memberTyped at found ⊢
  split at found
  · split at found
    · rename_i isFinal
      exact ⟨_, by rw [if_pos isFinal]; rfl, late found⟩
    · exact nomatch found
  · dsimp only at found ⊢
    split at found
    · obtain rfl := Option.some.inj found
      exact ⟨_, rfl, .external _⟩
    · exact ⟨_, rfl, late found⟩
  · split at found
    · rename_i isMember
      obtain rfl := Option.some.inj found
      exact ⟨_, rfl, .inScript isMember⟩
    · exact ⟨_, rfl, late found⟩
  · split at found
    · rename_i offered
      obtain rfl := Option.some.inj found
      exact ⟨_, by rw [if_pos offered]; rfl, .formMember⟩
    · rename_i unknown
      exact ⟨_, by rw [if_neg unknown]; rfl, late found⟩
  · exact ⟨_, rfl, late found⟩

/-- What an expression can be bound to, and how it is described then: only names and members are. -/
inductive Binds (around : Surroundings) (final : Bool) (bodies : Std.HashMap NodeId LocalScope)
    (place : Place) : Binding → Option Descriptor → Prop where
  | name {text : String} {binding : Binding} (shape : place.node.shape = .name text)
      (found : around.find? bodies place text = some binding) :
      Binds around final bodies place binding
        (Typing.known final (around.bindingDescriptor? place binding))
  | unresolved {text : String} (shape : place.node.shape = .name text) :
      Binds around final bodies place .unresolved (some .object)
  | member {object : Option Node} {name : String} {binding : Binding} {type : Option Descriptor}
      (shape : place.node.shape = .member object name)
      (finding : MemberFinding around final name binding type) :
      Binds around final bodies place binding type

theorem Binds.isReference {final : Bool} {bodies : Std.HashMap NodeId LocalScope}
    {binding : Binding} {type : Option Descriptor}
    (binds : around.Binds final bodies place binding type) : place.node.shape.isReference := by
  cases binds with
  | name shape | unresolved shape | member shape =>
    rw [shape]
    rfl

theorem typed_binds (notes : Notes) {bodies : Std.HashMap NodeId LocalScope} (cache : MemberMemo)
    {binding : Binding}
    (found : (around.typed final notes bodies cache place).1.binding = some binding) :
    ∃ type, (around.typed final notes bodies cache place).1.descriptor = type ∧
      around.Binds final bodies place binding type := by
  unfold typed at found ⊢
  dsimp only at found ⊢
  cases shape : place.node.shape with
  | name text =>
    simp only [shape, nameTyped] at found ⊢
    split at found
    · rename_i other taken
      obtain rfl := Option.some.inj found
      exact ⟨_, rfl, .name shape taken⟩
    · split at found
      · exact nomatch found
      · split at found
        · rename_i undeclared isFinal
          obtain rfl := Option.some.inj found
          exact ⟨_, by rw [if_neg undeclared, if_pos isFinal]; rfl, .unresolved shape⟩
        · exact nomatch found
  | member object name =>
    simp only [shape] at found ⊢
    split at found
    · obtain rfl := Option.some.inj found
      exact ⟨_, rfl, .member shape .late⟩
    · obtain ⟨type, described, finding⟩ := memberTyped_finding final cache _ name found
      exact ⟨type, described, .member shape finding⟩
  | call parens callee args =>
    simp only [shape, (callTyped_silent final ..).binding] at found
    exact nomatch found
  | binary op left right =>
    simp only [shape, (binary_silent final ..).binding] at found
    exact nomatch found
  | unary op operand =>
    simp only [shape, (unary_silent final ..).binding] at found
    exact nomatch found
  | assignedValue =>
    simp only [shape] at found
    split at found <;> exact nomatch found
  | _ =>
    simp only [shape] at found
    exact nomatch found

/-- A judgement says that a name is to be declared where it stands for nothing yet and may be. -/
theorem typed_declares (notes : Notes) (bodies : Std.HashMap NodeId LocalScope)
    (cache : MemberMemo) :
    (around.typed final notes bodies cache place).1.declares = around.declaresAt bodies place := by
  unfold typed declaresAt Node.nameText?
  dsimp only
  cases shape : place.node.shape with
  | name text =>
    simp only [nameTyped, Shape.nameText?]
    cases around.find? bodies place text with
    | some binding => rfl
    | none =>
      simp only [Option.isNone_none, Bool.true_and]
      split
      · rename_i needed
        exact needed.symm
      · rename_i refused
        rw [Bool.eq_false_iff.2 refused]
        split <;> rfl
  | member object name =>
    simp only
    split
    · rfl
    · exact memberTyped_declares final ..
  | call parens callee args => exact (callTyped_silent final ..).declares
  | binary op left right => exact (binary_silent final ..).declares
  | unary op operand => exact (unary_silent final ..).declares
  | assignedValue =>
    simp only
    split <;> rfl
  | _ => rfl

/-- The state in which a judgement is noted: what was looked up for it and what it says are kept. -/
def recorded (around : Surroundings) (final : Bool) (place : Place) (state : ResolutionState) :
    ResolutionState :=
  { state with
    cache := (around.typed final state.notes state.bodies state.cache place).2
    warnings := state.warnings ++
      (around.typed final state.notes state.bodies state.cache place).1.warnings }

/-- What is found out about an expression is noted. A name that is to be declared is declared first,
and is bound to its variable. -/
theorem judgeExpression_cases (around : Surroundings) (final : Bool) (place : Place)
    (state : ResolutionState) :
    around.judgeExpression final place state = around.noteJudgement place
        (around.typed final state.notes state.bodies state.cache place).1
        (around.recorded final place state) ∨
      around.declaresAt state.bodies place ∧ ∃ id after,
        (around.recorded final place state).declare place (place.node.nameText?.getD "") =
          (some id, after) ∧
        around.judgeExpression final place state = around.noteJudgement place
          (.bound (.localVar id) (some (.deferred ⟨around.script, id⟩))) after := by
  have declares : (around.typed final state.notes state.bodies state.cache place).1.declares =
      around.declaresAt state.bodies place :=
    typed_declares final state.notes state.bodies state.cache
  have judged : around.judgeExpression final place state =
      around.noteJudgement place
        (around.declareFor place (around.typed final state.notes state.bodies state.cache place).1
          (around.recorded final place state)).1
        (around.declareFor place (around.typed final state.notes state.bodies state.cache place).1
          (around.recorded final place state)).2 := rfl
  rw [judged, declareFor]
  split
  · rename_i needed
    split
    · rename_i id after taken
      exact .inr ⟨declares ▸ needed, id, after, taken, rfl⟩
    · rename_i after refused
      exact .inl (by rw [ResolutionState.declare_eq_none refused])
  · exact .inl rfl

end Surroundings

theorem ResolutionState.Fits.typed_plain (fits : state.Fits around roles)
    (inside : place ∈ state.root.placesUp) (final : Bool) {binding : Binding} {decl : NodeId}
    (found : (around.typed final state.notes state.bodies state.cache place).1.binding =
      some binding) (aims : binding.target? = some decl) : Role.Plain roles state.fresh decl := by
  obtain ⟨_, -, binds⟩ := Surroundings.typed_binds final _ _ found
  cases binds with
  | name _ taken => exact fits.find?_plain inside taken aims
  | unresolved => exact nomatch aims
  | member _ finding =>
    rw [finding.target?] at aims
    exact nomatch aims

theorem ResolutionState.foldl_oblige (obligations : List Obligation) :
    obligations.foldl .oblige state =
      { state with obligations := obligations.foldl .insert state.obligations } := by
  induction obligations generalizing state with
  | nil => rfl
  | cons obligation rest ih =>
    rw [List.foldl_cons, ih]
    rfl

namespace Touches

variable {after : ResolutionState}

theorem oblige (state : ResolutionState) (obligations : List Obligation) :
    Touches around roles allowed place state (obligations.foldl .oblige state) := by
  rw [ResolutionState.foldl_oblige]
  exact .single (.record state _ _ _ id)

theorem note (typed : Judgement) (role : roles place.node.id = .expression)
    (plain : ∀ binding decl, typed.binding = some binding → binding.target? = some decl →
      Role.Plain roles state.fresh decl)
    (allows : ∀ descriptor, typed.descriptor = some descriptor → allowed descriptor) :
    Touches around roles allowed place state (around.noteJudgement place typed state) := by
  refine around.noteJudgement_induction .refl (fun mode before _ touched => ?_)
    (fun owed before touched => ?_) (fun binding before found touched => ?_)
    fun descriptor before found touched => ?_
  · exact touched.trans (decide before mode role)
  · exact touched.trans (oblige before owed)
  · exact touched.trans (bind before binding role fun decl aims =>
      (plain binding decl found aims).mono (evolves touched).fresh)
  · exact touched.trans (judge before descriptor role (allows descriptor found))

theorem judgeExpression (fits : state.Fits around roles) (inside : place ∈ state.root.placesUp)
    (expression : place.node.shape.isExpression) (final : Bool)
    (allows : ∀ descriptor,
      (around.typed final state.notes state.bodies state.cache place).1.descriptor =
        some descriptor → allowed descriptor)
    (allowsNew : allowed (.deferred ⟨around.script, ⟨state.fresh⟩⟩)) :
    Touches around roles allowed place state (around.judgeExpression final place state) := by
  have role := fits.role_expression inside expression
  have recorded : Touches around roles allowed place state (around.recorded final place state) :=
    .single (.record state _ _ _ (Surroundings.typed_faithful final state.notes state.bodies place))
  rcases around.judgeExpression_cases final place state with same | ⟨needed, id, after, taken, same⟩
  · rw [same]
    exact recorded.trans (note _ role (fun _ _ found aims => fits.typed_plain inside final found aims)
      allows)
  · rw [same]
    have declared : Touch around roles allowed place (around.recorded final place state) after :=
      .declare needed taken
    obtain ⟨_, _, _, _, rfl, rfl⟩ := ResolutionState.declare_eq_some taken
    refine (recorded.trans (.single declared)).trans (note _ role ?_ ?_)
    · intro binding decl isNew aims
      obtain rfl := Option.some.inj isNew
      obtain rfl := Option.some.inj aims
      exact ⟨fits.later _ (Nat.le_refl _), Nat.lt_succ_self _⟩
    · intro descriptor isNew
      obtain rfl := Option.some.inj isNew
      exact allowsNew

theorem sweepProperty (fits : state.Fits around roles) (inside : place ∈ state.root.placesUp)
    {decl : PropertyDecl Node} (shape : place.node.shape = .property decl) (final : Bool) :
    Touches around roles allowed place state
      (around.sweepProperty final place.node.id decl state) := by
  have here := Node.node_mem_of_mem_placesUp inside
  have role : roles place.node.id = .property := by
    rw [fits.tree.role _ here, shape]
    rfl
  unfold Surroundings.sweepProperty
  dsimp only
  split
  · rename_i type found
    obtain ⟨source, isSource, noted⟩ :
        ∃ source, decl.source? = some source ∧ state.notes.descriptor? source.id = some type :=
      Option.bind_eq_some_iff.1 found
    have known : type.isDeferred = false := by
      refine fits.known noted ?_
      rw [fits.tree.source _ here decl source shape isSource]
      decide
    rw [Descriptor.follow_of_known known]
    exact copy state type role known
  · unfold Surroundings.defaultType
    split
    · exact copy state .object role rfl
    · exact .refl

end Touches

namespace ResolutionState.Fits

theorem flowDecl?_plain (fits : state.Fits around roles) (static : around.Fits roles bound)
    (older : bound ≤ state.fresh) {target : Node} {decl : NodeId}
    (found : around.flowDecl? state.notes target = some decl) :
    Role.Plain roles state.fresh decl := by
  have field {ref : DeclRef} (taken : (if ref.script == around.script &&
      around.nodes[ref.node]?.any (·.shape.isField) then some ref.node else none) = some decl) :
      Role.Plain roles state.fresh decl := by
    split at taken
    · rename_i fieldHere
      obtain rfl := Option.some.inj taken
      simp only [Bool.and_eq_true, Option.any_eq_true] at fieldHere
      obtain ⟨_, node, known, isField⟩ := fieldHere
      exact (static.field known isField).mono older
    · simp at taken
  unfold Surroundings.flowDecl? at found
  cases noted : state.notes.binding? target.id with
  | none => simp [noted] at found
  | some binding =>
    simp only [noted] at found
    cases binding with
    | localVar id | param id | returnValue id =>
      obtain rfl := Option.some.inj found
      exact fits.target noted rfl
    | member ref | outer ref => exact field found
    | _ => simp at found

theorem argumentFlows_plain (static : around.Fits roles bound) (older : bound ≤ state.fresh)
    {callee : Node} {args : List Node} {flow : Inflow}
    (found : flow ∈ around.argumentFlows state.notes callee args) :
    Role.Plain roles state.fresh flow.decl := by
  obtain ⟨ref, method, param, arg, known, paired, rfl⟩ := around.argumentFlows_cases found
  obtain ⟨node, noted, isMethod⟩ := Option.bind_eq_some_iff.1 known
  have among := (List.of_mem_zip paired).1
  have isParam : param.paramDecl?.isSome := by
    have taken := List.mem_takeWhile_imp among
    rw [Option.any_eq_true] at taken
    obtain ⟨decl, isDecl, _⟩ := taken
    simp [isDecl]
  exact (static.param noted isMethod (List.takeWhile_subset _ among) isParam).mono older

theorem inflows_plain (fits : state.Fits around roles) (static : around.Fits roles bound)
    (older : bound ≤ state.fresh) {node : Node} (inside : node ∈ state.root.descendants)
    {flow : Inflow} (found : flow ∈ around.inflows state.notes node) :
    Role.Plain roles state.fresh flow.decl := by
  unfold Surroundings.inflows at found
  cases shape : node.shape with
  | field decl | localVar decl | param decl =>
    simp only [shape] at found
    obtain ⟨value, _, rfl⟩ := List.mem_map.1 found
    exact fits.tree.plain inside (by rw [shape]; rfl)
  | assign isSet target value =>
    simp only [shape] at found
    obtain ⟨decl, aims, rfl⟩ := List.mem_map.1 found
    exact fits.flowDecl?_plain static older (Option.mem_toList.1 aims)
  | forRange counter first last step body =>
    simp only [shape] at found
    obtain ⟨decl, aims, listed⟩ := List.mem_flatMap.1 found
    have plain := fits.flowDecl?_plain static older (Option.mem_toList.1 aims)
    rcases List.mem_cons.1 listed with rfl | listed
    · exact plain
    · obtain rfl := List.mem_singleton.1 listed
      exact plain
  | forEach item collection body =>
    simp only [shape] at found
    obtain ⟨decl, aims, rfl⟩ := List.mem_map.1 found
    exact fits.flowDecl?_plain static older (Option.mem_toList.1 aims)
  | redim preserve target bounds =>
    simp only [shape] at found
    obtain ⟨decl, aims, rfl⟩ := List.mem_map.1 found
    exact fits.flowDecl?_plain static older (Option.mem_toList.1 aims)
  | call parens callee args =>
    simp only [shape] at found
    exact argumentFlows_plain static older found
  | _ => simp [shape] at found

end ResolutionState.Fits

namespace Touches

theorem judgeNode (fits : state.Fits around roles) (inside : place ∈ state.root.placesUp)
    (final : Bool)
    (allows : ∀ descriptor,
      (around.typed final state.notes state.bodies state.cache place).1.descriptor =
        some descriptor → allowed descriptor)
    (allowsNew : allowed (.deferred ⟨around.script, ⟨state.fresh⟩⟩)) :
    Touches around roles allowed place state (around.judge final place state) := by
  unfold Surroundings.judge
  split
  · rename_i decl shape
    exact sweepProperty fits inside shape final
  · split
    · rename_i expression
      exact judgeExpression fits inside expression final allows allowsNew
    · exact .refl

theorem fillNode (fits : state.Fits around roles) {node : Node}
    (inside : node ∈ state.root.descendants) (final : Bool) :
    Touches around roles allowed place state (Surroundings.fill final node state) := by
  unfold Surroundings.fill
  split
  · rename_i shape
    exact fill fits final (fits.tree.plain inside (by rw [shape]; rfl))
  · rename_i shape
    exact fill fits final (fits.tree.plain inside (by rw [shape]; rfl))
  · rename_i shape
    exact fill fits final (fits.tree.plain inside (by rw [shape]; rfl))
  · rename_i shape
    exact fill fits final (fits.tree.plain inside (by rw [shape]; rfl))
  · exact .refl

theorem flow (fits : state.Fits around roles) (static : around.Fits roles bound)
    (older : bound ≤ state.fresh) {node : Node} (inside : node ∈ state.root.descendants)
    (final : Bool) :
    Touches around roles allowed place state (Surroundings.fill final node
      ((around.inflows state.notes node).foldl around.pour state)) := by
  have poured : Touches around roles allowed place state
      ((around.inflows state.notes node).foldl around.pour state) :=
    pourAll static fits _ fun _ listed => fits.inflows_plain static older inside listed
  exact poured.trans (fillNode (Touches.fits poured static fits)
    ((evolves poured).root ▸ inside) final)

theorem sweepNode (fits : state.Fits around roles) (static : around.Fits roles bound)
    (older : bound ≤ state.fresh) (inside : place ∈ state.root.placesUp) (final : Bool)
    (allows : ∀ descriptor,
      (around.typed final state.notes state.bodies state.cache place).1.descriptor =
        some descriptor → allowed descriptor)
    (allowsNew : allowed (.deferred ⟨around.script, ⟨state.fresh⟩⟩)) :
    Touches around roles allowed place state (around.sweepNode final state place) := by
  have judged := judgeNode fits inside final allows allowsNew
  rw [Surroundings.sweepNode_eq]
  refine judged.trans (flow (Touches.fits judged static fits) static
    (Nat.le_trans older (evolves judged).fresh) ?_ final)
  rw [(evolves judged).root]
  exact Node.node_mem_of_mem_placesUp inside

/-- What touches a state wherever it happens leaves the notes of expressions and properties. -/
theorem elsewhere (touches : ∀ place, Touches around roles allowed place state after) :
    state.Evolves roles (fun _ => False) after := by
  have other (id : NodeId) : ∃ place : Place, ¬ id = place.node.id :=
    ⟨⟨.made ⟨id.index + 1⟩ 0 .missing, []⟩, fun same => by
      have index := congrArg NodeId.index same
      exact absurd index (Nat.ne_of_lt (Nat.lt_succ_self _))⟩
  obtain ⟨place, _⟩ := other ⟨0⟩
  exact { evolves (touches place) with
    descriptor := fun id _ role => by
      obtain ⟨place, apart⟩ := other id
      exact (evolves (touches place)).descriptor id apart role
    binding := fun id _ => by
      obtain ⟨place, apart⟩ := other id
      exact (evolves (touches place)).binding id apart
    mode := fun id _ => by
      obtain ⟨place, apart⟩ := other id
      exact (evolves (touches place)).mode id apart }

end Touches

end Visit

end ScriptMigration
