import ScriptMigration.Proofs.Include.Link
import ScriptMigration.Proofs.Resolution.Naming
import ScriptMigration.Proofs.Resolution.Resolved

/-! What is told when a script is resolved. Only the last sweep warns, a name is told not to be declared
exactly if it stands for nothing in the end, and no message is delivered twice. -/
namespace ScriptMigration

namespace DiagnosticLog

theorem render_warning_inj {left right : String} :
    ({ message := left } : Diagnostic).render = ({ message := right } : Diagnostic).render ↔
      left = right := by
  change "warning: " ++ left = "warning: " ++ right ↔ _
  exact String.append_right_inj _

theorem delivered_foldl_warn (messages : List String) :
    (messages.foldl warn {}).delivered = messages.eraseDups.map fun message => { message } := by
  induction messages using List.reverseRecOn with
  | nil => rfl
  | append_singleton messages message ih =>
    have known : ((messages.foldl warn {}).delivered.any
        (·.render == ({ message } : Diagnostic).render)) = true ↔ message ∈ messages := by
      rw [ih]
      simp only [List.any_eq_true, List.mem_map, List.mem_eraseDups, beq_iff_eq]
      constructor
      · rintro ⟨_, ⟨other, listed, rfl⟩, same⟩
        exact render_warning_inj.1 same ▸ listed
      · exact fun listed => ⟨_, ⟨message, listed, rfl⟩, rfl⟩
    rw [List.foldl_append, List.foldl_cons, List.foldl_nil, eraseDups_concat]
    unfold warn at known ⊢
    rw [report]
    by_cases listed : message ∈ messages
    · rw [if_pos (known.2 listed), if_pos listed]
      exact ih
    · rw [if_neg (fun again => listed (known.1 again)), if_neg listed, List.map_append]
      exact congrArg (· ++ [({ message } : Diagnostic)]) ih

end DiagnosticLog

def EndsWith (text : String) (last : Char) : Prop := text.toList.getLast? = some last

instance (text : String) (last : Char) : Decidable (EndsWith text last) :=
  inferInstanceAs (Decidable (_ = _))

namespace EndsWith

theorem append {text : String} {last : Char} (ends : EndsWith text last) (left : String) :
    EndsWith (left ++ text) last := by
  rw [EndsWith, String.toList_append, List.getLast?_append, ends, Option.some_or]

theorem unique {text : String} {last other : Char} (ends : EndsWith text last)
    (again : EndsWith text other) : last = other := Option.some.inj (ends.symm.trans again)

theorem exists_digit (number : Nat) : ∃ digit, EndsWith (toString number) digit ∧ digit.isDigit := by
  have digits : (toString number).toList = Nat.toDigits 10 number := by
    rw [Nat.toString_eq_ofList_toDigits, String.toList_ofList]
  unfold EndsWith
  rw [digits]
  cases found : (Nat.toDigits 10 number).getLast? with
  | none => exact absurd (List.getLast?_eq_none_iff.1 found) (by simp)
  | some digit =>
    exact ⟨digit, rfl, Nat.isDigit_of_mem_toDigits (by decide) (Nat.le_refl 10)
      (List.mem_of_getLast? found)⟩

end EndsWith

namespace Surroundings

variable (around : Surroundings)

def undeclared (name : String) : String := s!"{around.label}: '{name}' is not declared"

variable {around}

theorem undeclared_inj {left right : String} :
    around.undeclared left = around.undeclared right ↔ left = right := by
  change around.label ++ ": '" ++ left ++ "' is not declared" =
    around.label ++ ": '" ++ right ++ "' is not declared" ↔ left = right
  rw [String.append_left_inj, String.append_right_inj]

theorem undeclared_endsWith (name : String) : EndsWith (around.undeclared name) 'd' :=
  .append (by decide) _

theorem countWarning_ne_undeclared (called name : String) (count : Nat) (arity : Arity) :
    around.countWarning called count arity ≠ around.undeclared name := by
  intro same
  have ends : ∃ digit, EndsWith (Typing.expectedText arity) digit ∧ digit.isDigit := by
    unfold Typing.expectedText
    cases arity.most with
    | none =>
      obtain ⟨digit, ends, isDigit⟩ := EndsWith.exists_digit arity.least
      exact ⟨digit, ends.append _, isDigit⟩
    | some most =>
      obtain ⟨digit, ends, isDigit⟩ := EndsWith.exists_digit most
      dsimp only
      split
      · exact ⟨digit, ends, isDigit⟩
      · exact ⟨digit, ends.append _, isDigit⟩
  obtain ⟨digit, ends, isDigit⟩ := ends
  have counted : EndsWith (around.countWarning called count arity) digit := ends.append _
  obtain rfl := counted.unique (same ▸ undeclared_endsWith name)
  exact absurd isDigit (by decide)

theorem undeclared_not_mem_duplicateWarnings (root : Node) (name : String) :
    around.undeclared name ∉ around.duplicateWarnings root := by
  intro listed
  obtain ⟨type, -, among⟩ := List.mem_flatMap.1 listed
  split at among
  · exact nomatch among
  · obtain ⟨duplicate, -, same⟩ := List.mem_map.1 among
    have closed : EndsWith (around.undeclared name) ')' :=
      same ▸ .append (.append (show EndsWith ")" ')' by decide) _) _
    exact absurd (closed.unique (undeclared_endsWith name)) (by decide)

end Surroundings

section Visit

variable {around : Surroundings} {place : Place} {state after : ResolutionState}
  {typed : Judgement} {final : Bool}

namespace ResolutionState

variable (state)

@[simp] theorem warnings_describe (id : NodeId) (descriptor : Descriptor) :
    (state.describe id descriptor).warnings = state.warnings := by
  rcases state.describe_cases id descriptor with ⟨_, same⟩ | ⟨_, new⟩
  · rw [same]
  · rw [new]

@[simp] theorem warnings_bind (id : NodeId) (binding : Binding) :
    (state.bind id binding).warnings = state.warnings := by
  rcases state.bind_cases id binding with ⟨_, same⟩ | ⟨_, new⟩
  · rw [same]
  · rw [new]

@[simp] theorem warnings_decide (id : NodeId) (mode : LogicalMode) :
    (state.decide id mode).warnings = state.warnings := by
  rcases state.decide_cases id mode with ⟨_, same⟩ | ⟨_, new⟩
  · rw [same]
  · rw [new]

@[simp] theorem warnings_oblige (obligation : Obligation) :
    (state.oblige obligation).warnings = state.warnings := rfl

@[simp] theorem warnings_foldl_oblige (obligations : List Obligation) :
    (obligations.foldl .oblige state).warnings = state.warnings := by
  rw [foldl_oblige]

end ResolutionState

namespace Surroundings

theorem warnings_noteJudgement (state : ResolutionState) :
    (around.noteJudgement place typed state).warnings = state.warnings := by
  have owed (state : ResolutionState) : (if isMissing place.node then
      place.type?.elim state fun type => state.oblige (.missing type.id) else state).warnings =
        state.warnings := by
    split
    · cases place.type? <;> rfl
    · rfl
  unfold noteJudgement
  cases typed.mode <;> cases typed.binding <;> cases typed.descriptor <;> simp [owed]

/-- A note binds nothing but the node that it is about. -/
theorem binding?_noteJudgement (state : ResolutionState) (id : NodeId) :
    (around.noteJudgement place typed state).notes.binding? id =
      if place.node.id = id then typed.binding.or (state.notes.binding? id)
      else state.notes.binding? id := by
  rw [(ResolutionState.noteJudgement_quiet place typed state).bindings]
  cases typed.binding with
  | none => simp
  | some binding =>
    rw [Option.elim_some, ResolutionState.binding?_bind_eq, Option.some_or]

/-- What is found out about an expression warns of a name exactly if that stands for nothing, and does
so in the last sweep only. -/
structure Warns (around : Surroundings) (final : Bool) (place : Place) (typed : Judgement) : Prop where
  early : final = false → typed.warnings = [] ∧ typed.binding ≠ some .unresolved
  declared : typed.declares → typed.warnings = []
  told : ∀ name, around.undeclared name ∈ typed.warnings ↔
    typed.binding = some .unresolved ∧ place.node.nameText? = some name
  named : typed.binding = some .unresolved → place.node.nameText?.isSome

namespace Warns

theorem ofCalls (bound : typed.binding ≠ some .unresolved) (declares : typed.declares = false)
    (calls : ∀ warning ∈ typed.warnings, final = true ∧ ∃ called count arity,
      warning = around.countWarning called count arity) : around.Warns final place typed where
  early isEarly := by
    refine ⟨List.eq_nil_iff_forall_not_mem.2 fun warning listed => ?_, bound⟩
    rw [(calls warning listed).1] at isEarly
    exact nomatch isEarly
  declared needed := by
    rw [declares] at needed
    exact nomatch needed
  told name := by
    refine ⟨fun listed => ?_, fun found => absurd found.1 bound⟩
    obtain ⟨-, called, count, arity, same⟩ := calls _ listed
    exact absurd same.symm (countWarning_ne_undeclared called name count arity)
  named found := absurd found bound

theorem ofSilent (silent : typed.Silent) (untold : typed.warnings = []) :
    around.Warns final place typed := by
  refine .ofCalls ?_ silent.declares fun warning listed => ?_
  · rw [silent.binding]
    exact nofun
  · rw [untold] at listed
    exact nomatch listed

theorem name {text : String} (isText : place.node.nameText? = some text)
    (bodies : Std.HashMap NodeId LocalScope) :
    around.Warns final place (around.nameTyped final bodies place text) := by
  unfold nameTyped
  split
  · rename_i binding taken
    refine .ofCalls ?_ rfl fun _ listed => nomatch listed
    cases find?_eq_some taken <;> exact nofun
  · split
    · exact ⟨fun _ => ⟨rfl, nofun⟩, fun _ => rfl,
        fun _ => ⟨nofun, fun found => nomatch found.1⟩, nofun⟩
    · split
      · rename_i isFinal
        refine ⟨fun isEarly => ?_, nofun, fun name => ?_, fun _ => by rw [isText]; rfl⟩
        · rw [isFinal] at isEarly
          exact nomatch isEarly
        · rw [isText, Option.some_inj]
          change around.undeclared name ∈ [around.undeclared text] ↔ _
          rw [List.mem_singleton, undeclared_inj]
          exact ⟨fun same => ⟨rfl, same.symm⟩, fun found => found.2.symm⟩
      · exact .ofSilent ⟨rfl, rfl⟩ rfl

theorem member (cache : MemberMemo) (target : Option Descriptor) (name : String) :
    around.Warns final place (around.memberTyped final cache target name).1 := by
  have untold : (around.memberTyped final cache target name).1.warnings = [] ∧
      (around.memberTyped final cache target name).1.binding ≠ some .unresolved := by
    unfold memberTyped
    split
    · split <;> exact ⟨rfl, nofun⟩
    · split
      split <;> exact ⟨rfl, nofun⟩
    · split
      · unfold bindMember
        split <;> exact ⟨rfl, nofun⟩
      · exact ⟨rfl, nofun⟩
    · split <;> exact ⟨rfl, nofun⟩
    · exact ⟨rfl, nofun⟩
  refine .ofCalls untold.2 (memberTyped_declares final cache target name) fun warning listed => ?_
  rw [untold.1] at listed
  exact nomatch listed

theorem call (notes : Notes) (callee : Node) (args : List Node) :
    around.Warns final place (around.callTyped final notes callee args) := by
  have silent : (around.callTyped final notes callee args).Silent := callTyped_silent ..
  refine .ofCalls (by rw [silent.binding]; exact nofun) silent.declares ?_
  have counts {called : String} {count : Nat} {arity : Arity} {warning : String}
      (listed : warning ∈ around.countWarnings final called count arity) :
      final = true ∧ ∃ called count arity, warning = around.countWarning called count arity := by
    unfold countWarnings at listed
    split at listed
    · rename_i refused
      exact ⟨(Bool.and_eq_true_iff.1 refused).1, _, _, _, List.mem_singleton.1 listed⟩
    · exact nomatch listed
  unfold callTyped
  dsimp only
  cases notes.binding? callee.id with
  | none => exact fun _ listed => nomatch listed
  | some binding =>
    cases binding with
    | function print =>
      dsimp only
      split
      · exact fun _ listed => counts listed
      · exact fun _ listed => nomatch listed
    | member decl | outer decl | dependency decl =>
      dsimp only
      split
      · exact fun _ listed => counts listed
      · exact fun _ listed => nomatch listed
    | external print =>
      dsimp only
      split <;> exact fun _ listed => nomatch listed
    | _ => exact fun _ listed => nomatch listed

theorem logical_warnings (operands : List (Option Descriptor)) :
    (Typing.logical final operands).warnings = [] := by
  simp only [Typing.logical]
  split
  · rfl
  · split <;> rfl

theorem logical (operands : List (Option Descriptor)) :
    around.Warns final place (Typing.logical final operands) :=
  .ofSilent (logical_silent final operands) (logical_warnings operands)

theorem binary (op : BinaryOp) (left right : Option Descriptor) :
    around.Warns final place (Typing.binary final op left right) := by
  refine .ofSilent (binary_silent final op left right) ?_
  obtain ⟨_, same⟩ | ⟨_, ⟨_, same⟩ | ⟨_, _, _, _, same⟩ | ⟨_, same⟩⟩ :=
    Typing.binary_cases final op left right
  · exact same ▸ logical_warnings _
  all_goals exact same ▸ rfl

end Warns

theorem typed_warns (final : Bool) (notes : Notes) (bodies : Std.HashMap NodeId LocalScope)
    (cache : MemberMemo) : around.Warns final place (around.typed final notes bodies cache place).1 := by
  unfold typed
  dsimp only
  cases shape : place.node.shape with
  | name text => exact .name (by rw [Node.nameText?, shape]; rfl) bodies
  | member object name =>
    dsimp only
    split
    · exact .ofCalls nofun rfl fun _ listed => nomatch listed
    · exact .member cache _ name
  | call parens callee args => exact .call notes callee args
  | binary op left right => exact .binary op _ _
  | unary op operand =>
    cases op with
    | not => exact .logical _
    | neg | plus => exact .ofSilent ⟨rfl, rfl⟩ rfl
  | assignedValue =>
    dsimp only
    split <;> exact .ofSilent ⟨rfl, rfl⟩ rfl
  | _ => exact .ofSilent ⟨rfl, rfl⟩ rfl

end Surroundings

namespace ResolutionState

structure Reports (state after : ResolutionState) (place : Place) (typed : Judgement) : Prop where
  warnings : after.warnings = state.warnings ++ typed.warnings
  bindings : ∀ id, after.notes.binding? id =
    if place.node.id = id then typed.binding.or (state.notes.binding? id)
    else state.notes.binding? id

theorem Reports.nothing (warnings : after.warnings = state.warnings)
    (bindings : ∀ id, after.notes.binding? id = state.notes.binding? id) :
    state.Reports after place {} :=
  ⟨warnings.trans (List.append_nil _).symm, fun id => by
    rw [bindings]
    split <;> rfl⟩

theorem judgeExpression_reports (final : Bool) (place : Place) (state : ResolutionState) :
    ∃ typed, around.Warns final place typed ∧
      state.Reports (around.judgeExpression final place state) place typed := by
  have warns : around.Warns final place
      (around.typed final state.notes state.bodies state.cache place).1 :=
    Surroundings.typed_warns final state.notes state.bodies state.cache
  have noted {before : ResolutionState} {told : Judgement} (notes : before.notes = state.notes)
      (warnings : before.warnings = state.warnings ++
        (around.typed final state.notes state.bodies state.cache place).1.warnings) :
      state.Reports (around.noteJudgement place told before) place { told with
        warnings := (around.typed final state.notes state.bodies state.cache place).1.warnings } :=
    ⟨(Surroundings.warnings_noteJudgement before).trans warnings, fun id => by
      rw [Surroundings.binding?_noteJudgement, notes]⟩
  rcases around.judgeExpression_cases final place state with same | ⟨needed, id, after, taken, same⟩
  · rw [same]
    exact ⟨_, warns, noted rfl rfl⟩
  · rw [same]
    obtain ⟨_, _, _, _, -, rfl⟩ := declare_eq_some taken
    refine ⟨_, ?_, noted rfl rfl⟩
    refine .ofCalls nofun rfl fun warning listed => ?_
    rw [warns.declared ((Surroundings.typed_declares ..).trans needed)] at listed
    exact nomatch listed

theorem visit_reports (final : Bool) (place : Place) (state : ResolutionState) :
    ∃ typed, around.Warns final place typed ∧
      state.Reports (around.sweepNode final state place) place typed := by
  have silent : around.Warns final place {} := .ofSilent ⟨rfl, rfl⟩ rfl
  have judged : ∃ typed, around.Warns final place typed ∧
      state.Reports (around.judge final place state) place typed := by
    unfold Surroundings.judge
    split
    · rename_i decl _
      have quiet : state.Redescribes (around.sweepProperty final place.node.id decl state) :=
        .sweepProperty state final _ decl
      exact ⟨_, silent, .nothing quiet.warnings quiet.bindings⟩
    · split
      · exact judgeExpression_reports final place state
      · exact ⟨_, silent, .nothing rfl fun _ => rfl⟩
  obtain ⟨typed, warns, reports⟩ := judged
  have further := sweepNode_redescribes around final place state
  refine ⟨typed, warns, further.warnings.trans reports.warnings, fun id => ?_⟩
  rw [further.bindings, reports.bindings]

end ResolutionState

end Visit

section Sweeps

variable {around : Surroundings} {roles : NodeId → Role} {bound : Nat} {place : Place}
  {state : ResolutionState} {seen : List Place}

namespace ResolutionState

structure Untold (state : ResolutionState) : Prop where
  warnings : state.warnings = []
  bindings : ∀ id, state.notes.binding? id ≠ some .unresolved

namespace Untold

theorem visit (untold : state.Untold) (place : Place) :
    (around.sweepNode false state place).Untold := by
  obtain ⟨typed, warns, reports⟩ :
      ∃ typed, around.Warns false place typed ∧
        state.Reports (around.sweepNode false state place) place typed :=
    visit_reports false place state
  obtain ⟨silent, stands⟩ := warns.early rfl
  refine ⟨?_, fun id => ?_⟩
  · rw [reports.warnings, untold.warnings, silent, List.append_nil]
  · rw [reports.bindings]
    split
    · cases found : typed.binding with
      | none => exact untold.bindings id
      | some binding => exact fun same => stands (found.trans same)
    · exact untold.bindings id

theorem sweep (untold : state.Untold) : (around.sweep false state).Untold := by
  have walked : (around.walk false state.root.placesUp { state with changed := false }).Untold :=
    List.foldlRecOn _ _ ⟨untold.warnings, untold.bindings⟩ fun _ before place _ => before.visit place
  refine ⟨(warnings_settleImplicit _).trans walked.warnings, fun id => ?_⟩
  rw [show (around.sweep false state).notes = _ from notes_settleImplicit _]
  exact walked.bindings id

theorem sweeps (untold : state.Untold) (attempts : Nat) :
    (around.sweeps attempts state).2.Untold :=
  Surroundings.sweeps_induction (motive := Untold) untold (fun untold => untold.sweep) attempts

theorem iterate (untold : state.Untold) (count : Nat) :
    ((around.sweep false)^[count] state).Untold := by
  induction count with
  | zero => exact untold
  | succ count ih =>
    rw [Function.iterate_succ_apply']
    exact ih.sweep

end Untold

/-- In the last sweep, the names that were visited are told not to be declared exactly if they stand for
nothing, and nothing else does. -/
structure Reported (state : ResolutionState) (around : Surroundings) (seen : List Place) : Prop where
  told : ∀ name, around.undeclared name ∈ state.warnings ↔ ∃ place ∈ seen,
    place.node.nameText? = some name ∧ state.notes.binding? place.node.id = some .unresolved
  named : ∀ id, state.notes.binding? id = some .unresolved →
    ∃ place ∈ seen, place.node.id = id ∧ place.node.nameText?.isSome

theorem Untold.reported (untold : state.Untold) : state.Reported around [] := by
  refine ⟨fun name => ⟨fun listed => ?_, ?_⟩, fun id found => absurd found (untold.bindings id)⟩
  · rw [untold.warnings] at listed
    exact nomatch listed
  · rintro ⟨_, absurd, -⟩
    exact nomatch absurd

namespace Reported

theorem visit (reported : state.Reported around seen)
    (new : ∀ other ∈ seen, other.node.id ≠ place.node.id) :
    (around.sweepNode true state place).Reported around (seen ++ [place]) := by
  obtain ⟨typed, warns, reports⟩ :
      ∃ typed, around.Warns true place typed ∧
        state.Reports (around.sweepNode true state place) place typed :=
    visit_reports true place state
  have unbound : state.notes.binding? place.node.id ≠ some .unresolved := by
    intro found
    obtain ⟨other, listed, same, -⟩ := reported.named _ found
    exact new other listed same
  have here : (around.sweepNode true state place).notes.binding? place.node.id =
      some .unresolved ↔ typed.binding = some .unresolved := by
    rw [reports.bindings, if_pos rfl]
    cases typed.binding with
    | none => simpa using unbound
    | some binding => rfl
  have elsewhere {id : NodeId} (apart : id ≠ place.node.id) :
      (around.sweepNode true state place).notes.binding? id = state.notes.binding? id := by
    rw [reports.bindings, if_neg apart.symm]
  constructor
  · intro name
    rw [reports.warnings, List.mem_append, reported.told, warns.told, ← here]
    constructor
    · rintro (⟨other, listed, isName, found⟩ | ⟨found, isName⟩)
      · exact ⟨other, List.mem_append_left _ listed, isName,
          (elsewhere (new other listed)).trans found⟩
      · exact ⟨place, List.mem_append_right _ List.mem_cons_self, isName, found⟩
    · rintro ⟨other, among, isName, found⟩
      rcases List.mem_append.1 among with listed | isHere
      · rw [elsewhere (new other listed)] at found
        exact .inl ⟨other, listed, isName, found⟩
      · obtain rfl := List.mem_singleton.1 isHere
        exact .inr ⟨found, isName⟩
  · intro id found
    by_cases same : id = place.node.id
    · subst same
      exact ⟨place, List.mem_append_right _ List.mem_cons_self, rfl, warns.named (here.1 found)⟩
    · rw [elsewhere same] at found
      obtain ⟨other, listed, rest⟩ := reported.named id found
      exact ⟨other, List.mem_append_left _ listed, rest⟩

theorem walk {places : List Place} (reported : state.Reported around seen)
    (apart : ((seen ++ places).map (·.node.id)).Nodup) :
    (around.walk true places state).Reported around (seen ++ places) := by
  induction places generalizing seen state with
  | nil =>
    rw [List.append_nil]
    exact reported
  | cons place rest ih =>
    have split : seen ++ place :: rest = (seen ++ [place]) ++ rest := by simp
    have new : ∀ other ∈ seen, other.node.id ≠ place.node.id := by
      rw [List.map_append, List.nodup_append] at apart
      exact fun other listed same => apart.2.2 _ (List.mem_map.2 ⟨other, listed, rfl⟩) _
        (List.mem_map.2 ⟨place, List.mem_cons_self, rfl⟩) same
    rw [split] at apart ⊢
    exact ih (reported.visit new) apart

end Reported

end ResolutionState

/-- A name is told not to be declared exactly if a name of the tree so spelt stands for nothing, and
nothing but names does. -/
structure Surroundings.Tells (around : Surroundings) (warnings : List String) (root : Node)
    (notes : Notes) : Prop where
  told : ∀ name, around.undeclared name ∈ warnings ↔ ∃ node ∈ root.descendants,
    node.nameText? = some name ∧ notes.binding? node.id = some .unresolved
  named : ∀ id, notes.binding? id = some .unresolved →
    ∃ node ∈ root.descendants, node.id = id ∧ node.nameText?.isSome

theorem Surroundings.Tells.grow {warnings : List String} {root root' : Node} {notes notes' : Notes}
    (tells : around.Tells warnings root notes) (distinct : root'.Distinct)
    (kept : ∀ old ∈ root.descendants, ∃ node ∈ root'.descendants, node.Traces old)
    (bindings : ∀ id, notes'.binding? id = notes.binding? id) :
    around.Tells warnings root' notes' := by
  have named (id : NodeId) (found : notes'.binding? id = some .unresolved) :
      ∃ old ∈ root.descendants, ∃ node ∈ root'.descendants, node.Traces old ∧ node.id = id ∧
        old.nameText?.isSome := by
    rw [bindings] at found
    obtain ⟨old, inside, rfl, isName⟩ := tells.named _ found
    obtain ⟨node, among, traces⟩ := kept old inside
    exact ⟨old, inside, node, among, traces, traces.id, isName⟩
  constructor
  · intro name
    rw [tells.told]
    constructor
    · rintro ⟨old, inside, isName, found⟩
      obtain ⟨node, among, traces⟩ := kept old inside
      exact ⟨node, among, traces.name.trans isName, by rw [bindings, traces.id, found]⟩
    · rintro ⟨node, among, isName, found⟩
      obtain ⟨old, inside, other, lies, traces, same, -⟩ := named node.id found
      obtain rfl := distinct.eq_of_id_eq lies among same
      exact ⟨old, inside, traces.name.symm.trans isName, by rw [← traces.id, ← bindings, found]⟩
  · intro id found
    obtain ⟨old, -, node, among, traces, same, isName⟩ := named id found
    exact ⟨node, among, same, by rw [traces.name]; exact isName⟩

theorem Surroundings.Tells.countP_eq_zero_iff {warnings : List String} {root : Node} {notes : Notes}
    (tells : around.Tells warnings root notes) :
    root.descendants.countP (fun node => notes.binding? node.id == some .unresolved) = 0 ↔
      ∀ name, around.undeclared name ∉ warnings := by
  rw [List.countP_eq_zero]
  constructor
  · intro none name listed
    obtain ⟨node, inside, -, found⟩ := (tells.told name).1 listed
    exact none node inside (beq_iff_eq.2 found)
  · intro untold node inside found
    obtain ⟨other, among, same, isName⟩ := tells.named node.id (beq_iff_eq.1 found)
    obtain ⟨name, isText⟩ := Option.isSome_iff_exists.1 isName
    refine untold name ((tells.told name).2 ⟨other, among, isText, ?_⟩)
    rw [same, beq_iff_eq.1 found]

namespace ResolutionState

theorem Fits.sweep_tells (fits : state.Fits around roles) (static : around.Fits roles bound)
    (older : bound ≤ state.fresh) (untold : state.Untold) :
    around.Tells (around.sweep true state).warnings (around.sweep true state).root
      (around.sweep true state).notes := by
  have apart : (([] ++ state.root.placesUp : List Place).map (·.node.id)).Nodup :=
    List.pairwise_map.2 ((Node.placesUp_pairwise_after fits.tree.distinct).imp fun after =>
      after.1.symm)
  have started : ({ state with changed := false } : ResolutionState).Reported around [] :=
    Untold.reported ⟨untold.warnings, untold.bindings⟩
  have walked := started.walk apart
  have notes : (around.sweep true state).notes = _ := notes_settleImplicit _
  have warnings : (around.sweep true state).warnings = _ := warnings_settleImplicit _
  have tells : around.Tells (around.sweep true state).warnings state.root
      (around.sweep true state).notes := by
    rw [notes, warnings]
    constructor
    · intro name
      refine (walked.told name).trans ⟨?_, ?_⟩
      · rintro ⟨place, listed, rest⟩
        exact ⟨place.node, Node.node_mem_of_mem_placesUp listed, rest⟩
      · rintro ⟨node, inside, rest⟩
        obtain ⟨place, listed, rfl⟩ := Node.exists_mem_placesUp inside
        exact ⟨place, listed, rest⟩
    · intro id found
      obtain ⟨place, listed, rest⟩ := walked.named id found
      exact ⟨place.node, Node.node_mem_of_mem_placesUp listed, rest⟩
  exact tells.grow (fits.sweep true static older).tree.distinct
    (fun old inside => fits.exists_mem_sweep static older true inside) fun _ => rfl

end ResolutionState

end Sweeps

section Resolve

variable {symbols : SymbolTable} {options : MigrationOptions} {store : ScriptStore}
  {cache : MemberMemo} {id : ScriptId} {script : Script} {draft : Draft}

namespace Draft.Prepared

theorem start_untold (prepared : draft.Prepared) (cache : MemberMemo) :
    ((Surroundings.forScript symbols options store id script draft).start draft cache).Untold := by
  refine ⟨rfl, fun other found => ?_⟩
  rw [(Surroundings.start_notes _ cache prepared.formed.unknown).2] at found
  exact nomatch found

theorem resolveDraft_tells (prepared : draft.Prepared) (cache : MemberMemo) {around : Surroundings}
    (isAround : around = Surroundings.forScript symbols options store id script draft) :
    around.Tells (around.sweep true (around.beforeLast draft cache)).warnings
      (around.resolveDraft draft cache).draft.root (around.resolveDraft draft cache).draft.notes := by
  have static : around.Fits draft.root.roleOf draft.fresh :=
    isAround ▸ prepared.formed.surroundings_fit
  have started : (around.start draft cache).Underway around _ _ :=
    isAround ▸ prepared.formed.start_underway cache
  have untold : (around.start draft cache).Untold := isAround ▸ prepared.start_untold cache
  have underway := (started.sweeps static around.options.maxAttempts).1
  have last := (underway.sweep static true).fits
  have swept := underway.fits.sweep_tells static underway.older (untold.sweeps _)
  have tidy : (around.settle draft _).Tidy :=
    Draft.Tidy.settle last.tree.distinct last.tree.small
  exact swept.grow tidy.distinct (fun old inside => Surroundings.exists_mem_settle draft inside)
    fun id => Surroundings.binding?_settle id

end Draft.Prepared

theorem ScriptStore.messages_resolve (symbols : SymbolTable) (options : MigrationOptions)
    (cache : MemberMemo) (listed : store.get? id = some script)
    (read : script.draft? = some draft) :
    (store.resolve symbols options cache id).diagnostics.map (·.message) =
      (((Surroundings.forScript symbols options store id script draft).sweep true
          ((Surroundings.forScript symbols options store id script draft).beforeLast draft
            cache)).warnings ++
        (Surroundings.forScript symbols options store id script draft).duplicateWarnings
          draft.root).eraseDups := by
  have delivered : (store.resolve symbols options cache id).diagnostics =
      ((((Surroundings.forScript symbols options store id script draft).sweep true
          ((Surroundings.forScript symbols options store id script draft).beforeLast draft
            cache)).warnings ++
        (Surroundings.forScript symbols options store id script draft).duplicateWarnings
          draft.root).foldl DiagnosticLog.warn {}).delivered := by
    unfold resolve
    rw [listed]
    dsimp only
    rw [read]
    rfl
  rw [delivered, DiagnosticLog.delivered_foldl_warn, List.map_map]
  exact List.map_id _

/-- When a script is resolved, no message is delivered twice; a name is told not to be declared exactly
if a name of the tree so spelt stands for nothing in the end; and the nodes that stand for nothing are
counted, so that there are none exactly if no name is told not to be declared. Only the last sweep
warns: none before it does, and what is delivered are its warnings and those about members whose names
are taken. -/
theorem ScriptStore.resolve_reports (symbols : SymbolTable) (options : MigrationOptions)
    (store : ScriptStore) (cache : MemberMemo) (id : ScriptId)
    (prepared : ∀ draft, store.draft? id = some draft → draft.Prepared) :
    ∀ result, result = store.resolve symbols options cache id →
      ∀ messages : List String, messages = result.diagnostics.map (·.message) →
        messages.Nodup ∧
        (∀ name : String, s!"{store.label id}: '{name}' is not declared" ∈ messages ↔
          ∃ resolved, result.store.draft? id = some resolved ∧
            ∃ node ∈ resolved.root.descendants, node.nameText? = some name ∧
              resolved.notes.binding? node.id = some .unresolved) ∧
        result.outcome.unresolved = ((result.store.draft? id).elim 0 fun resolved =>
          resolved.root.descendants.countP fun node =>
            resolved.notes.binding? node.id == some .unresolved) ∧
        (result.outcome.unresolved = 0 ↔
          ∀ name : String, s!"{store.label id}: '{name}' is not declared" ∉ messages) ∧
        ∀ script draft, store.get? id = some script → script.draft? = some draft →
          ∀ around, around = Surroundings.forScript symbols options store id script draft →
            (∀ sweeps, ((around.sweep false)^[sweeps] (around.start draft cache)).warnings = []) ∧
            (around.beforeLast draft cache).warnings = [] ∧
            messages = ((around.sweep true (around.beforeLast draft cache)).warnings ++
              around.duplicateWarnings draft.root).eraseDups := by
  rintro _ rfl _ rfl
  cases found : store.draft? id with
  | none =>
    have kept : store.resolve symbols options cache id = { store, cache } := by
      unfold resolve
      split
      · rfl
      · rename_i script listed
        rw [draft?, listed, Option.bind_some] at found
        rw [found]
    rw [kept, found]
    refine ⟨List.nodup_nil, fun name => by simp, rfl,
      ⟨fun _ _ => List.not_mem_nil, fun _ => rfl⟩, fun script draft listed read => ?_⟩
    rw [draft?, listed, Option.bind_some, read] at found
    cases found
  | some draft =>
    obtain ⟨script, listed, read⟩ := exists_script found
    have tells :
        (Surroundings.forScript symbols options store id script draft).Tells _ _ _ :=
      (prepared draft found).resolveDraft_tells cache rfl
    obtain ⟨stores, -, outcome⟩ := resolve_eq symbols options cache listed read
    have here : (store.resolve symbols options cache id).store.draft? id =
        some ((Surroundings.forScript symbols options store id script draft).resolveDraft draft
          cache).draft := by
      rw [stores]
      exact draft?_setDraft listed
    have label : store.label id =
        (Surroundings.forScript symbols options store id script draft).label := by
      rw [label, listed]
      rfl
    have messages := messages_resolve symbols options cache listed read
    have told (name : String) : s!"{store.label id}: '{name}' is not declared" ∈
          (store.resolve symbols options cache id).diagnostics.map (·.message) ↔
        (Surroundings.forScript symbols options store id script draft).undeclared name ∈
          ((Surroundings.forScript symbols options store id script draft).sweep true
            ((Surroundings.forScript symbols options store id script draft).beforeLast draft
              cache)).warnings := by
      rw [messages, List.mem_eraseDups, List.mem_append, label]
      exact or_iff_left (Surroundings.undeclared_not_mem_duplicateWarnings draft.root name)
    have counted : (store.resolve symbols options cache id).outcome.unresolved =
        ((Surroundings.forScript symbols options store id script draft).resolveDraft draft
          cache).draft.root.descendants.countP fun node =>
            ((Surroundings.forScript symbols options store id script draft).resolveDraft draft
              cache).draft.notes.binding? node.id == some .unresolved := by
      rw [outcome, List.countP_eq_length_filter]
      rfl
    refine ⟨messages ▸ eraseDups_nodup _, fun name => ?_, ?_, ?_, ?_⟩
    · rw [here]
      refine ((told name).trans (tells.told name)).trans ⟨fun unbound => ⟨_, rfl, unbound⟩, ?_⟩
      rintro ⟨_, same, unbound⟩
      exact Option.some.inj same ▸ unbound
    · rw [here]
      exact counted
    · rw [counted, tells.countP_eq_zero_iff]
      exact forall_congr' fun name => not_congr (told name).symm
    · intro other draft' listed' read'
      obtain rfl := Option.some.inj (listed.symm.trans listed')
      obtain rfl := Option.some.inj (read.symm.trans read')
      rintro _ rfl
      have untold :
          ((Surroundings.forScript symbols options store id script draft).start draft cache).Untold :=
        (prepared draft found).start_untold cache
      exact ⟨fun sweeps => (untold.iterate sweeps).warnings, (untold.sweeps _).warnings, messages⟩

theorem ScriptStore.resolve_reports_undeclared : ∃ module,
    parseModule "Option Explicit\nx = y + y" "Test" = .ok module ∧
    (∀ draft, (ScriptStore.alone module).draft? ⟨0⟩ = some draft → draft.Prepared) ∧
    ∀ result, result = (ScriptStore.alone module).resolve .empty {} (.withCapacity 8) ⟨0⟩ →
      ∀ messages : List String, messages = result.diagnostics.map (·.message) →
        messages.Nodup ∧
        (∀ name : String, s!"{(ScriptStore.alone module).label ⟨0⟩}: '{name}' is not declared" ∈
            messages ↔
          ∃ resolved, result.store.draft? ⟨0⟩ = some resolved ∧
            ∃ node ∈ resolved.root.descendants, node.nameText? = some name ∧
              resolved.notes.binding? node.id = some .unresolved) ∧
        (result.outcome.unresolved = 0 ↔ ∀ name : String,
          s!"{(ScriptStore.alone module).label ⟨0⟩}: '{name}' is not declared" ∉ messages) := by
  obtain ⟨module, parsed⟩ : ∃ module, parseModule "Option Explicit\nx = y + y" "Test" =
      .ok module := exists_module (by decide +kernel)
  have prepared (draft : Draft) (found : (ScriptStore.alone module).draft? ⟨0⟩ = some draft) :
      draft.Prepared := ScriptStore.draft?_alone found ▸ .read parsed
  refine ⟨module, parsed, prepared, fun result resolved messages delivered => ?_⟩
  obtain ⟨once, told, -, none, -⟩ := ScriptStore.resolve_reports .empty {} (.alone module)
    (.withCapacity 8) ⟨0⟩ prepared result resolved messages delivered
  exact ⟨once, told, none⟩

end Resolve

end ScriptMigration
