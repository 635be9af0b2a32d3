import ScriptMigration.Proofs.Resolution.Noted
import ScriptMigration.Resolution.Settle

/-! The last sweep. It leaves no expression without a descriptor, no name or member without a binding,
no logical operator undecided, and no declaration of which nothing is known. -/
namespace ScriptMigration

/-- A logical operator on truth values gives a truth value, and one on bits an integer. -/
def LogicalMode.Gives (mode : LogicalMode) (descriptor : Descriptor) : Prop :=
  (mode = .boolean ∧ descriptor = .ofPrimitive .bool) ∨
    (mode = .bitwise ∧ ∃ kind : Primitive, kind.isInteger ∧ descriptor = .ofPrimitive kind)

structure Judgement.Decides (typed : Judgement) (shape : Shape Node) : Prop where
  descriptor : typed.descriptor.isSome
  binding : shape.isReference → typed.binding.isSome
  mode : shape.isLogical → ∃ mode descriptor, typed.mode = some mode ∧
    typed.descriptor = some descriptor ∧ mode.Gives descriptor

theorem Judgement.Decides.ofPlain {typed : Judgement} {shape : Shape Node}
    (described : typed.descriptor.isSome) (reference : shape.isReference = false)
    (logical : shape.isLogical = false) : typed.Decides shape := by
  refine ⟨described, fun isReference => ?_, fun isLogical => ?_⟩
  · rw [reference] at isReference
    exact nomatch isReference
  · rw [logical] at isLogical
    exact nomatch isLogical

structure Notes.Decides (notes : Notes) (node : Node) : Prop where
  descriptor : (notes.descriptor? node.id).isSome
  binding : node.shape.isReference → (notes.binding? node.id).isSome
  mode : node.shape.isLogical → ∃ descriptor, notes.descriptor? node.id = some descriptor ∧
    (notes.mode node.id).Gives descriptor

theorem Notes.Decides.of_traces {notes : Notes} {node old : Node} (decides : notes.Decides old)
    (traces : node.Traces old) : notes.Decides node := by
  refine ⟨?_, fun reference => ?_, fun logical => ?_⟩
  · rw [traces.id]
    exact decides.descriptor
  · rw [traces.id]
    exact decides.binding (traces.reference ▸ reference)
  · rw [traces.id]
    exact decides.mode (traces.logical ▸ logical)

theorem LogicalMode.Gives.of_beq {mode : LogicalMode} {descriptor other : Descriptor}
    (gives : mode.Gives descriptor) (same : other == descriptor) : mode.Gives other := by
  rcases gives with ⟨isBoolean, rfl⟩ | ⟨isBitwise, kind, integer, rfl⟩
  · exact .inl ⟨isBoolean, Descriptor.eq_ofPrimitive_of_beq same⟩
  · exact .inr ⟨isBitwise, kind, integer, Descriptor.eq_ofPrimitive_of_beq same⟩

theorem Judgement.Decides.noted {typed : Judgement} {node : Node} {notes : Notes}
    (decides : typed.Decides node.shape) (noted : typed.Noted notes node.id) :
    notes.Decides node := by
  have described {descriptor : Descriptor} (found : typed.descriptor = some descriptor) :
      ∃ other, notes.descriptor? node.id = some other ∧ other == descriptor := by
    have same := noted.descriptor descriptor found
    cases isNoted : notes.descriptor? node.id with
    | none =>
      rw [isNoted] at same
      exact nomatch same
    | some other =>
      rw [isNoted] at same
      exact ⟨other, rfl, same⟩
  refine ⟨?_, fun reference => ?_, fun logical => ?_⟩
  · obtain ⟨descriptor, found⟩ := Option.isSome_iff_exists.1 decides.descriptor
    obtain ⟨other, isNoted, _⟩ := described found
    rw [isNoted]
    rfl
  · obtain ⟨binding, found⟩ := Option.isSome_iff_exists.1 (decides.binding reference)
    rw [noted.binding binding found]
    rfl
  · obtain ⟨mode, descriptor, isMode, found, gives⟩ := decides.mode logical
    obtain ⟨other, isNoted, same⟩ := described found
    refine ⟨other, isNoted, ?_⟩
    rw [noted.mode mode isMode]
    exact gives.of_beq same

namespace Surroundings

open Typing

theorem isInteger_of_widestInteger? {operands : List Descriptor} {kind : Primitive}
    (found : widestInteger? operands = some kind) : kind.isInteger := by
  induction operands generalizing kind with
  | nil => simp [widestInteger?] at found
  | cons operand rest ih =>
    cases rest with
    | nil => exact (Option.filter_eq_some_iff.1 found).2
    | cons next rest =>
      obtain ⟨own, isOwn, later⟩ := Option.bind_eq_some_iff.1 found
      obtain ⟨other, isOther, chosen⟩ := Option.bind_eq_some_iff.1 later
      split at chosen
      · obtain rfl := Option.some.inj chosen
        exact (Option.filter_eq_some_iff.1 isOwn).2
      · obtain rfl := Option.some.inj chosen
        exact ih isOther

theorem logical_gives (operands : List (Option Descriptor)) :
    ∃ mode descriptor, (logical true operands).mode = some mode ∧
      (logical true operands).descriptor = some descriptor ∧ mode.Gives descriptor := by
  unfold logical
  simp only [Bool.not_true, Bool.false_and, Bool.false_eq_true, if_false]
  split
  · exact ⟨_, _, rfl, rfl, .inl ⟨rfl, rfl⟩⟩
  · refine ⟨_, _, rfl, rfl, .inr ⟨rfl, _, ?_, rfl⟩⟩
    cases found : widestInteger? (operands.map (·.getD .object)) with
    | none => rfl
    | some kind => exact isInteger_of_widestInteger? found

theorem logical_decides (operands : List (Option Descriptor)) {shape : Shape Node}
    (plain : shape.isReference = false) : (logical true operands).Decides shape := by
  obtain ⟨mode, descriptor, isMode, found, gives⟩ := logical_gives operands
  refine ⟨?_, fun reference => ?_, fun _ => ⟨mode, descriptor, isMode, found, gives⟩⟩
  · rw [found]
    rfl
  · rw [plain] at reference
    exact nomatch reference

theorem binary_decides (op : BinaryOp) (left right : Node) (first second : Option Descriptor) :
    (binary true op first second).Decides (.binary op left right) := by
  obtain ⟨_, same⟩ | ⟨plain, ⟨_, same⟩ | ⟨_, _, _, _, same⟩ | ⟨unknown, _⟩⟩ :=
    binary_cases true op first second
  · exact same ▸ logical_decides _ rfl
  · exact same ▸ .ofPlain rfl rfl plain
  · exact same ▸ .ofPlain rfl rfl plain
  · simp [known] at unknown

theorem unary_decides (op : UnaryOp) (inner : Node) (operand : Option Descriptor) :
    (unary true op operand).Decides (.unary op inner) := by
  cases op with
  | not => exact logical_decides _ rfl
  | neg | plus => exact .ofPlain rfl rfl rfl

variable {around : Surroundings}

theorem callTyped_isSome (notes : Notes) (callee : Node) (args : List Node) :
    (around.callTyped true notes callee args).descriptor.isSome := by
  have applied : (if args.isEmpty then known true (around.followed? notes callee.id)
      else known true ((around.followed? notes callee.id).map around.indexed)).isSome := by
    split <;> rfl
  unfold callTyped
  dsimp only
  cases notes.binding? callee.id with
  | none => exact applied
  | some binding =>
    cases binding with
    | function print =>
      dsimp only
      split <;> rfl
    | member decl | outer decl | dependency decl =>
      dsimp only
      split
      · rfl
      · exact applied
    | external print =>
      dsimp only
      split
      · rfl
      · exact applied
    | _ => exact applied

theorem memberTyped_decides (around : Surroundings) (cache : MemberMemo) (target : Option Descriptor) (name : String) :
    (around.memberTyped true cache target name).1.descriptor.isSome ∧
      (around.memberTyped true cache target name).1.binding.isSome := by
  unfold memberTyped
  split
  · exact ⟨rfl, rfl⟩
  · split
    split <;> exact ⟨rfl, rfl⟩
  · split <;> exact ⟨rfl, rfl⟩
  · split <;> exact ⟨rfl, rfl⟩
  · exact ⟨rfl, rfl⟩

theorem nameTyped_decides {bodies : Std.HashMap NodeId LocalScope} {place : Place} {name : String}
    (undeclared : (around.nameTyped true bodies place name).declares = false) :
    (around.nameTyped true bodies place name).descriptor.isSome ∧
      (around.nameTyped true bodies place name).binding.isSome := by
  unfold nameTyped at undeclared ⊢
  cases found : around.find? bodies place name with
  | some binding => exact ⟨rfl, rfl⟩
  | none =>
    simp only [found] at undeclared ⊢
    split
    · rename_i needed
      rw [if_pos needed] at undeclared
      exact nomatch undeclared
    · exact ⟨rfl, rfl⟩

/-- In the last sweep everything is found out about an expression, but of a name that is to be
declared. -/
theorem typed_decides {place : Place} (expression : place.node.shape.isExpression) (notes : Notes)
    (bodies : Std.HashMap NodeId LocalScope) (cache : MemberMemo)
    (undeclared : around.declaresAt bodies place = false) :
    (around.typed true notes bodies cache place).1.Decides place.node.shape := by
  have declares : (around.typed true notes bodies cache place).1.declares =
      around.declaresAt bodies place := typed_declares true notes bodies cache
  rw [undeclared] at declares
  unfold typed at declares ⊢
  dsimp only at declares ⊢
  cases shape : place.node.shape with
  | literal | missing | resource | paren | new =>
    exact .ofPlain rfl rfl rfl
  | assignedValue =>
    dsimp only
    split <;> exact .ofPlain rfl rfl rfl
  | name text =>
    simp only [shape] at declares ⊢
    obtain ⟨described, isBound⟩ := nameTyped_decides declares
    exact ⟨described, fun _ => isBound, fun absurd => nomatch absurd⟩
  | member object name =>
    dsimp only
    split
    · exact ⟨rfl, fun _ => rfl, fun absurd => nomatch absurd⟩
    · obtain ⟨described, isBound⟩ := around.memberTyped_decides cache _ name
      exact ⟨described, fun _ => isBound, fun absurd => nomatch absurd⟩
  | call parens callee args =>
    exact .ofPlain (callTyped_isSome notes callee args) rfl rfl
  | binary op left right => exact binary_decides op left right _ _
  | unary op operand => exact unary_decides op operand _
  | _ =>
    rw [shape] at expression
    exact nomatch expression

end Surroundings

def Shape.isFilled {α : Type} : Shape α → Bool
  | .field _ | .localVar _ | .param _ | .method _ | .property _ => true
  | _ => false

theorem Shape.isDeclaration_cases {α : Type} {shape : Shape α} (declares : shape.isDeclaration) :
    shape.isFilled ∨ shape.isType := by
  cases shape <;> simp_all [isDeclaration, isMember, isFilled, isType]

theorem Shape.family_ne_localVar {α : Type} {shape : Shape α} (expression : shape.isExpression) :
    shape.family ≠ .localVar := by
  rw [(Shape.isExpression_iff _).1 expression]
  decide

section LastSweep

variable {around : Surroundings} {roles : NodeId → Role} {state : ResolutionState} {bound : Nat}
  {place : Place}

theorem Surroundings.isSome_defaultType (id : NodeId) (state : ResolutionState) :
    ((defaultType true id state).notes.descriptor? id).isSome := by
  unfold defaultType
  split
  · exact state.isSome_describe id .object
  · rename_i known
    simp only [Bool.true_and, Bool.not_eq_true, Option.isNone_eq_false_iff] at known
    exact known

namespace ResolutionState.Fits

theorem visit_decides (fits : state.Fits around roles) (static : around.Fits roles bound)
    (older : bound ≤ state.fresh) (inside : place ∈ state.root.placesUp)
    (expression : place.node.shape.isExpression) :
    (around.sweepNode true state place).notes.Decides place.node := by
  cases needed : around.declaresAt state.bodies place with
  | false =>
    have decides := Surroundings.typed_decides expression state.notes state.bodies state.cache needed
    exact decides.noted (fits.visit_noted static older inside true expression needed)
  | true =>
    obtain ⟨⟨text, shape⟩, _⟩ := Surroundings.name_of_declaresAt needed
    obtain ⟨cache, warnings, id, middle, _, visited⟩ :=
      Surroundings.sweepNode_of_declares needed true
    rw [visited]
    refine Judgement.Decides.noted ?_ Surroundings.noteJudgement_noted
    refine ⟨rfl, fun _ => rfl, fun logical => ?_⟩
    rw [shape] at logical
    exact nomatch logical

theorem walk_decides (fits : state.Fits around roles) (static : around.Fits roles bound)
    (older : bound ≤ state.fresh) (listed : place ∈ state.root.placesUp)
    (expression : place.node.shape.isExpression) :
    (around.walk true state.root.placesUp state).notes.Decides place.node := by
  obtain ⟨before, inside, visited, apart, _, further⟩ := fits.exists_visit true static older listed
  obtain ⟨middleFits, evolves⟩ := fits.walk true static older inside
  have here : place ∈ (around.walk true before state).root.placesUp := by
    rw [evolves.root]
    exact listed
  have decides := middleFits.visit_decides static (Nat.le_trans older evolves.fresh) here expression
  have role : roles place.node.id ≠ .other := by
    rw [fits.role_expression listed expression]
    decide
  have descriptor := further.descriptor _ apart role
  refine ⟨?_, fun reference => ?_, fun logical => ?_⟩
  · rw [descriptor]
    exact decides.descriptor
  · rw [further.binding _ apart]
    exact decides.binding reference
  · rw [descriptor, further.mode _ apart]
    exact decides.mode logical

theorem visit_fills (fits : state.Fits around roles) (static : around.Fits roles bound)
    (older : bound ≤ state.fresh) (inside : place ∈ state.root.placesUp)
    (filled : place.node.shape.isFilled) :
    ((around.sweepNode true state place).notes.descriptor? place.node.id).isSome := by
  cases shape : place.node.shape with
  | field decl | localVar decl | param decl | method decl =>
    rw [Surroundings.sweepNode_eq, Surroundings.fill, shape]
    exact Surroundings.isSome_defaultType _ _
  | property decl =>
    refine (fits.judge_evolves static older inside true).described _ ?_
    rw [Surroundings.judge_of_property shape]
    cases found : decl.source?.bind (state.notes.descriptor? ·.id) with
    | none =>
      rw [Surroundings.sweepProperty_eq, found]
      exact Surroundings.isSome_defaultType _ _
    | some type =>
      obtain ⟨source, isSource, noted⟩ := Option.bind_eq_some_iff.1 found
      rw [fits.sweepProperty_of_source inside shape isSource noted]
      exact state.isSome_describe place.node.id type
  | _ =>
    rw [shape] at filled
    cases filled

theorem walk_fills (fits : state.Fits around roles) (static : around.Fits roles bound)
    (older : bound ≤ state.fresh) (listed : place ∈ state.root.placesUp)
    (filled : place.node.shape.isFilled) :
    ((around.walk true state.root.placesUp state).notes.descriptor? place.node.id).isSome := by
  obtain ⟨before, inside, visited, _, _, further⟩ := fits.exists_visit true static older listed
  obtain ⟨middleFits, evolves⟩ := fits.walk true static older inside
  have here : place ∈ (around.walk true before state).root.placesUp := by
    rw [evolves.root]
    exact listed
  exact further.described _
    (middleFits.visit_fills static (Nat.le_trans older evolves.fresh) here filled)

/-- What the tree that a sweep leaves holds was visited, but for new variables, and nothing is noted when
the visits are over. -/
theorem exists_walked (fits : state.Fits around roles) (static : around.Fits roles bound)
    (older : bound ≤ state.fresh) (final : Bool) {node : Node}
    (inside : node ∈ (around.sweep final state).root.descendants)
    (unlike : node.shape.family ≠ .localVar) :
    ∃ place ∈ state.root.placesUp, node.Traces place.node ∧ (around.sweep final state).notes =
      (around.walk final state.root.placesUp { state with changed := false }).notes := by
  obtain ⟨implicit, root, locals⟩ := fits.root_sweep final static older
  have adds := declareIn_adds fun entry among => (locals entry among).1
  have noted : (around.sweep final state).notes =
      (around.walk final state.root.placesUp { state with changed := false }).notes :=
    notes_settleImplicit _
  rw [root] at inside
  rcases adds.traces_of_mem (fun _ family => declareIn_of_family (by rw [family]; decide)) inside
    with ⟨old, lies, traces⟩ | ⟨old, _, leaf⟩
  · obtain ⟨place, listed, rfl⟩ := Node.exists_mem_placesUp lies
    exact ⟨place, listed, traces, noted⟩
  · obtain ⟨entry, among, rfl, _⟩ := mem_leavesOf leaf
    exact absurd (locals entry among).2 unlike

theorem exists_mem_sweep (fits : state.Fits around roles) (static : around.Fits roles bound)
    (older : bound ≤ state.fresh) (final : Bool) {old : Node}
    (inside : old ∈ state.root.descendants) :
    ∃ node ∈ (around.sweep final state).root.descendants, node.Traces old := by
  obtain ⟨implicit, root, locals⟩ := fits.root_sweep final static older
  have adds := declareIn_adds fun entry among => (locals entry among).1
  rw [root]
  exact ⟨_, adds.mem_descendants_mapUp.2 ⟨old, inside, .inl rfl⟩,
    adds.traces_mapUp (fun _ family => declareIn_of_family (by rw [family]; decide)) old⟩

theorem sweep_decides (fits : state.Fits around roles) (static : around.Fits roles bound)
    (older : bound ≤ state.fresh) {node : Node}
    (inside : node ∈ (around.sweep true state).root.descendants)
    (expression : node.shape.isExpression) : (around.sweep true state).notes.Decides node := by
  have started := fits.record state.cache state.warnings state.obligations false
  obtain ⟨place, listed, traces, noted⟩ := fits.exists_walked static older true inside
    (Shape.family_ne_localVar expression)
  have isExpression : place.node.shape.isExpression := by
    rw [Shape.isExpression_iff, ← traces.family]
    exact (Shape.isExpression_iff _).1 expression
  rw [noted]
  exact (started.walk_decides static older listed isExpression).of_traces traces

theorem sweep_describes (fits : state.Fits around roles) (static : around.Fits roles bound)
    (older : bound ≤ state.fresh) (declared : state.Declared around) (clear : state.implicit = [])
    (types : ∀ node ∈ state.root.descendants, node.shape.isType →
      (around.declared[node.id]?).isSome) {node : Node}
    (inside : node ∈ (around.sweep true state).root.descendants)
    (declares : node.shape.isDeclaration) :
    ((around.sweep true state).notes.descriptor? node.id).isSome := by
  have started := fits.record state.cache state.warnings state.obligations false
  obtain ⟨same, root, _⟩ := declared.sweep fits true static older clear
  rw [root] at inside
  rcases Shape.isDeclaration_cases declares with filled | isType
  · obtain ⟨place, listed, rfl⟩ := Node.exists_mem_placesUp inside
    rw [same]
    exact started.walk_fills static older listed filled
  · obtain ⟨type, written⟩ := Option.isSome_iff_exists.1 (types node inside isType)
    rw [(fits.sweep true static older).declared written]
    rfl

end ResolutionState.Fits

end LastSweep

end ScriptMigration
