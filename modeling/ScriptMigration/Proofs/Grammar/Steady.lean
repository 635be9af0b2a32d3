import ScriptMigration.Proofs.Grammar.Termination

/-! What every reader of the grammar keeps. A reader passes tokens, stops at the token that it has reached
or at the one that it passed last, and says of a number that it has no value only where that is so: a fact
about states that these three steps keep holds wherever a statement or a member is read. -/
namespace ScriptMigration

def TokenKind.isNumber : TokenKind → Bool
  | intLiteral | floatLiteral | hexLiteral | octLiteral => true
  | _ => false

/-- Whether a reader meets the fault wherever it stands: that a class has no end is found out at the end of
the text, and that a number has no value at the number. -/
def SyntaxCause.isOrdinary : SyntaxCause → Bool
  | unclosedClass _ | invalidNumber _ => false
  | _ => true

namespace Reader

variable {α β : Type} {inv : State → Prop} {state : State}

def State.noting (fault : SyntaxFault) (state : State) : State :=
  { state with noted := fault :: state.noted }

def Settles (returns stops : State → Prop) : EStateM.Result SyntaxFault State α → Prop
  | .ok _ after => returns after
  | .error fault after => stops (after.noting fault)

namespace Settles

variable {returns stops returns' stops' : State → Prop} {result : EStateM.Result SyntaxFault State α}

theorem mono (settles : Settles returns stops result) (later : ∀ state, returns state → returns' state)
    (ends : ∀ state, stops state → stops' state) : Settles returns' stops' result := by
  cases result with
  | ok value after => exact later _ settles
  | error fault after => exact ends _ settles

theorem bind {reader : Reader α} {next : α → Reader β}
    (settles : Settles returns stops (reader state))
    (rest : ∀ value after, returns after → Settles returns' stops (next value after)) :
    Settles returns' stops ((reader >>= next) state) := by
  rw [AgreesAt.bind_eq]
  cases found : reader state with
  | ok value after =>
    rw [found] at settles
    exact rest value after settles
  | error fault after =>
    rw [found] at settles
    exact settles

end Settles

/-- What holds of a state wherever a reader comes to, if it holds where the reader begins. -/
structure Kept (inv : State → Prop) : Prop where
  /-- Tokens are passed. -/
  passing {state later : State} (here : inv state) (passed : later.tokens <:+ state.tokens)
    (noted : later.noted = state.noted) : inv later
  /-- A fault is met at the next token. -/
  stopped {state : State} {cause : SyntaxCause} (here : inv state) (ordinary : cause.isOrdinary) :
    inv (state.noting ⟨cause, state.current.span⟩)
  /-- A fault is met at the token that was passed last. -/
  thrown {state after : State} {cause : SyntaxCause} (here : inv state)
    (passes : advance state = .ok state.current after) (ordinary : cause.isOrdinary) :
    inv (after.noting ⟨cause, state.current.span⟩)
  /-- A number was passed that has no value. -/
  unread {state after : State} (here : inv state) (number : state.current.kind.isNumber)
    (none : Expression.numeral? state.current = none)
    (passes : advance state = .ok state.current after) :
    inv (after.noting ⟨.invalidNumber state.current.lexeme, state.current.span⟩)

def SteadyAt (inv : State → Prop) (reader : Reader α) (state : State) : Prop :=
  Settles inv inv (reader state)

def Steady (reader : Reader α) : Prop :=
  ∀ inv, Kept inv → ∀ state, inv state → SteadyAt inv reader state

namespace Steady

variable {reader other : Reader α} {next : α → Reader β}

theorem bind (first : Steady reader) (rest : ∀ value, Steady (next value)) :
    Steady (reader >>= next) :=
  fun inv kept state here => (first inv kept state here).bind fun value => rest value inv kept

theorem pure (value : α) : Steady (pure value : Reader α) := fun _ _ _ here => here

theorem map (steady : Steady reader) (f : α → β) : Steady (f <$> reader) :=
  steady.bind fun value => .pure (f value)

theorem branch {condition : Prop} [Decidable condition] (first : Steady reader)
    (second : Steady other) (rest : ∀ value, Steady (next value)) :
    Steady (if condition then reader >>= next else other >>= next) := by
  split
  · exact first.bind rest
  · exact second.bind rest

theorem look (quiet : ∀ state, ∃ value, reader state = .ok value state) : Steady reader := by
  intro inv kept state here
  obtain ⟨value, found⟩ := quiet state
  rw [SteadyAt, found]
  exact here

theorem passing (passes : ∀ state, ∃ value after, reader state = .ok value after ∧
    after.tokens <:+ state.tokens ∧ after.noted = state.noted) : Steady reader := by
  intro inv kept state here
  obtain ⟨value, after, found, suffix, noted⟩ := passes state
  rw [SteadyAt, found]
  exact kept.passing here suffix noted

theorem stop {cause : SyntaxCause} (ordinary : cause.isOrdinary) :
    Steady (Reader.stop cause : Reader α) := fun _ kept _ here => kept.stopped here ordinary

theorem stop_bind {cause : SyntaxCause} (ordinary : cause.isOrdinary) :
    Steady (Reader.stop cause >>= next) := fun _ kept _ here => kept.stopped here ordinary

end Steady

theorem peek_steady : Steady peek := .look fun state => ⟨state.current, rfl⟩

theorem peekKind_steady : Steady peekKind := .look fun state => ⟨state.current.kind, rfl⟩

theorem peekSecond_steady : Steady peekSecond := .look fun _ => ⟨_, rfl⟩

theorem line_steady : Steady line := .look fun state => ⟨state.current.span.line, rfl⟩

theorem lastLine_steady : Steady lastLine := .look fun state => ⟨state.lastLine, rfl⟩

theorem at?_steady (kind : TokenKind) : Steady (at? kind) :=
  .look fun state => ⟨state.current.kind == kind, rfl⟩

theorem atWord_steady (word : String) : Steady (atWord word) :=
  .look fun state => ⟨state.current.isWord word, rfl⟩

theorem make_steady (shape : Shape Node) (line lastLine : Nat) :
    Steady (make shape line lastLine) :=
  .passing fun _ => ⟨_, _, rfl, List.suffix_refl _, rfl⟩

theorem advance_passes (state : State) : ∃ after, advance state = .ok state.current after ∧
    after.tokens <:+ state.tokens ∧ after.noted = state.noted := by
  obtain ⟨current, rest, lastLine, noted, fresh⟩ := state
  cases rest with
  | nil => exact ⟨_, rfl, List.suffix_refl _, rfl⟩
  | cons next rest => exact ⟨_, rfl, List.suffix_cons _ _, rfl⟩

/-- After a token was passed, a reader can still stop at it. -/
theorem SteadyAt.advance {next : Token → Reader α} (kept : Kept inv) (here : inv state)
    (rest : ∀ after, inv after → Reader.advance state = .ok state.current after →
      SteadyAt inv (next state.current) after) :
    SteadyAt inv (Reader.advance >>= next) state := by
  obtain ⟨after, found, suffix, noted⟩ := advance_passes state
  rw [SteadyAt, AgreesAt.bind_eq, found]
  exact rest after (kept.passing here suffix noted) found

theorem SteadyAt.look {reader : Reader α} {next : α → Reader β} {value : α}
    (found : reader state = .ok value state) (rest : SteadyAt inv (next value) state) :
    SteadyAt inv (reader >>= next) state := by
  rw [SteadyAt, AgreesAt.bind_eq, found]
  exact rest

theorem advance_steady : Steady advance := .passing fun state =>
  let ⟨after, found, suffix, noted⟩ := advance_passes state
  ⟨state.current, after, found, suffix, noted⟩

theorem eat_steady (kind : TokenKind) : Steady (eat kind) := by
  refine (at?_steady kind).bind fun found => ?_
  split
  · exact advance_steady.bind fun _ => .pure _
  · exact .pure _

theorem eatWord_steady (word : String) : Steady (eatWord word) := by
  refine (atWord_steady word).bind fun found => ?_
  split
  · exact advance_steady.bind fun _ => .pure _
  · exact .pure _

theorem expect_steady (kind : TokenKind) : Steady (expect kind) := by
  refine (at?_steady kind).bind fun found => ?_
  split
  · exact advance_steady
  · exact peekKind_steady.bind fun _ => .stop rfl

theorem expectWord_steady (word : String) : Steady (expectWord word) := by
  refine (eatWord_steady word).bind fun found => ?_
  split
  · exact peekKind_steady.bind fun _ => .stop rfl
  · exact .pure _

theorem expectName_steady : Steady expectName := by
  refine (at?_steady _).bind fun found => ?_
  split
  · exact advance_steady.bind fun token => .pure _
  · exact peekKind_steady.bind fun _ => .stop rfl

theorem expectAnyName_steady : Steady expectAnyName := by
  refine peekKind_steady.bind fun kind => ?_
  split
  · exact advance_steady
  · exact .stop rfl

theorem expectEnd_steady : Steady expectEnd := by
  refine peekKind_steady.bind fun kind => ?_
  split
  · exact advance_steady.bind fun _ => .pure _
  · exact .stop rfl

theorem skip_steady (test : TokenKind → Bool) :
    Steady (modify (·.skipWhile test) : Reader Unit) := by
  refine .passing fun state => ?_
  obtain ⟨suffix, noted, -⟩ := state.skipWhile_spec test
  exact ⟨(), _, rfl, suffix, noted⟩

theorem skipSeparators_steady : Steady skipSeparators := skip_steady _

theorem skipLine_steady : Steady skipLine :=
  (skip_steady _).bind fun _ => (eat_steady _).bind fun _ => .pure _

theorem SteadyAt.recovering {reader : Reader α} (kept : Kept inv) (steady : SteadyAt inv reader state)
    (fallback : α) : SteadyAt inv (recovering reader fallback) state := by
  unfold SteadyAt at steady ⊢
  unfold Reader.recovering
  cases found : reader state with
  | ok value after =>
    rw [found] at steady
    exact steady
  | error fault after =>
    rw [found] at steady
    exact (skipLine_steady.bind fun _ => .pure fallback) inv kept _ steady

theorem recovering_steady {reader : Reader α} (steady : Steady reader) (fallback : α) :
    Steady (recovering reader fallback) :=
  fun inv kept state here => (steady inv kept state here).recovering kept fallback

theorem commaList_steady {item : Reader α} (steady : Steady item) (bound : Nat) :
    Steady (commaList item bound) := by
  induction bound with
  | zero => exact .stop rfl
  | succ bound ih =>
    refine steady.bind fun first => (eat_steady _).bind fun more => ?_
    split
    · exact ih.bind fun rest => .pure _
    · exact .pure _

end Reader

open Reader

namespace Expression

theorem typeName_steady (bound : Nat) : Steady (typeName bound) := by
  have tail (bound : Nat) (name : String) : Steady (typeNameTail bound name) := by
    induction bound generalizing name with
    | zero => exact .stop rfl
    | succ bound ih =>
      refine (eat_steady _).bind fun found => ?_
      split
      · exact expectAnyName_steady.bind fun part => ih _
      · exact .pure _
  exact expectAnyName_steady.bind fun first => tail bound _

section Nested

variable {expr : Reader Node}

theorem arguments_steady (nested : Steady expr) (bound : Nat) :
    Steady (arguments expr bound) := by
  have argument : Steady (argument expr) := by
    refine peekKind_steady.bind fun kind => ?_
    split
    · exact line_steady.bind fun line => make_steady _ _ _
    · exact nested
  refine (eat_steady _).bind fun closed => ?_
  split
  · exact .pure _
  · refine (commaList_steady argument bound).bind fun args => ?_
    exact (expect_steady _).bind fun _ => .pure _

theorem token_steady (shape : Shape Node) (line : Nat) :
    Steady (advance >>= fun _ => make shape line) :=
  advance_steady.bind fun _ => make_steady _ _ _

theorem number_steadyAt {inv : State → Prop} {state : State} (kept : Kept inv) (here : inv state)
    (number : state.current.kind.isNumber) (line : Nat) : SteadyAt inv (do
      let _ ← advance
      match numeral? state.current with
      | some value => make (.literal value) line
      | none => do
        let shape ← throw ⟨.invalidNumber state.current.lexeme, state.current.span⟩
        make shape line) state := by
  refine .advance kept here fun after fits passes => ?_
  split
  · exact make_steady _ _ _ inv kept after fits
  · rename_i none
    exact kept.unread here number none passes

theorem primary_steady (nested : Steady expr) (bound : Nat) : Steady (primary expr bound) := by
  intro inv kept state here
  have isToken : peek state = .ok state.current state := rfl
  refine .look isToken ?_
  simp only [pure_bind]
  split
  · rename_i isKind
    exact number_steadyAt kept here (by rw [isKind]; rfl) _
  · rename_i isKind
    exact number_steadyAt kept here (by rw [isKind]; rfl) _
  · rename_i isKind
    exact number_steadyAt kept here (by rw [isKind]; rfl) _
  · rename_i isKind
    exact number_steadyAt kept here (by rw [isKind]; rfl) _
  · exact token_steady _ _ inv kept state here
  · exact token_steady _ _ inv kept state here
  · exact token_steady _ _ inv kept state here
  · exact token_steady _ _ inv kept state here
  · exact token_steady _ _ inv kept state here
  · exact token_steady _ _ inv kept state here
  · exact token_steady _ _ inv kept state here
  · exact token_steady _ _ inv kept state here
  · refine advance_steady.bind (fun _ => nested.bind fun inner => ?_) inv kept state here
    exact (expect_steady _).bind fun _ => make_steady _ _ _
  · refine advance_steady.bind (fun _ => ?_) inv kept state here
    exact expectAnyName_steady.bind fun name => make_steady _ _ _
  · refine advance_steady.bind (fun _ => ?_) inv kept state here
    refine (typeName_steady bound).bind fun name => (eat_steady _).bind fun found => ?_
    exact .branch (arguments_steady nested bound) (.pure []) fun args => make_steady _ _ _
  · exact Steady.stop_bind rfl inv kept state here

theorem suffixes_steady (nested : Steady expr) (bound : Nat) (before : Node) :
    Steady (suffixes expr bound before) := by
  induction bound generalizing before with
  | zero => exact .stop rfl
  | succ bound ih =>
    refine peek_steady.bind fun token => ?_
    split
    · refine advance_steady.bind fun _ => expectAnyName_steady.bind fun name => ?_
      exact (make_steady _ _ _).bind ih
    · refine advance_steady.bind fun _ => (arguments_steady nested bound).bind fun args => ?_
      exact (make_steady _ _ _).bind ih
    · exact .pure _

theorem chain_steady (nested : Steady expr) (bound : Nat) : Steady (chain expr bound) :=
  (primary_steady nested bound).bind (suffixes_steady nested bound)

end Nested

theorem read_steady (bound power : Nat) : Steady (read bound power) := by
  induction bound generalizing power with
  | zero => exact .stop rfl
  | succ bound ih =>
    have operand : Steady (operand (read bound) (bound + 1)) := by
      refine peekKind_steady.bind fun kind => ?_
      split
      · exact chain_steady (ih 0) _
      · exact advance_steady.bind fun token => (ih _).bind fun inner => make_steady _ _ _
    have operators (turns : Nat) (left : Node) : Steady (operators (read bound) power turns left) := by
      induction turns generalizing left with
      | zero => exact .stop rfl
      | succ turns later =>
        refine peekKind_steady.bind fun kind => ?_
        split
        · exact .pure _
        · split
          · exact .pure _
          · refine advance_steady.bind fun token => (ih _).bind fun right => ?_
            exact (make_steady _ _ _).bind later
    exact operand.bind (operators (bound + 1))

theorem whole_steady (bound : Nat) : Steady (whole bound) := read_steady bound 0

theorem target_steady (bound : Nat) : Steady (target bound) := by
  cases bound with
  | zero => exact .stop rfl
  | succ bound => exact chain_steady (read_steady bound 0) _

end Expression

namespace Statement

open Expression

theorem arrayBounds_steady (bound : Nat) : Steady (arrayBounds bound) := by
  refine (expect_steady _).bind fun _ => (eat_steady _).bind fun closed => ?_
  split
  · exact .pure _
  · refine (commaList_steady (whole_steady bound) bound).bind fun bounds => ?_
    exact (expect_steady _).bind fun _ => .pure _

theorem variableDecl_steady (visibility : Visibility) (site : Site) (bound : Nat) :
    Steady (variableDecl visibility site bound) := by
  refine line_steady.bind fun line => expectName_steady.bind fun name => ?_
  refine (at?_steady _).bind fun found => ?_
  refine .branch ((arrayBounds_steady bound).map _) (.pure _) fun array => ?_
  refine (eat_steady _).bind fun typed => ?_
  split
  · refine (eat_steady _).bind fun asNew => (typeName_steady bound).bind fun typeName => ?_
    exact make_steady _ _ _
  · exact make_steady _ _ _

theorem constantDecl_steady (visibility : Visibility) (site : Site) (bound : Nat) :
    Steady (constantDecl visibility site bound) := by
  refine line_steady.bind fun line => expectName_steady.bind fun name => ?_
  refine (eat_steady _).bind fun typed => ?_
  refine .branch ((typeName_steady bound).map _) (.pure _) fun typeName => ?_
  refine (expect_steady _).bind fun _ => (whole_steady bound).bind fun init => ?_
  exact make_steady _ _ _

theorem asCall_steady (expr : Node) : Steady (asCall expr) := by
  unfold asCall
  split
  · exact .pure _
  · exact make_steady _ _ _

theorem assignment_steady (isSet : Bool) (bound : Nat) : Steady (assignment isSet bound) := by
  refine line_steady.bind fun line => (target_steady bound).bind fun target => ?_
  refine (expect_steady _).bind fun _ => (whole_steady bound).bind fun value => ?_
  exact make_steady _ _ _

theorem bareArguments_steady (bound : Nat) : Steady (bareArguments bound) := by
  refine commaList_steady (peekKind_steady.bind fun kind => ?_) bound
  split
  · exact line_steady.bind fun line => make_steady _ _ _
  · exact whole_steady bound

theorem simple_steady (bound : Nat) : Steady (simple bound) := by
  have called (line : Nat) (target : Node) : Steady (do
      let call ← make (.call false target (← bareArguments bound)) line
      make (.exprStmt call) line) :=
    (bareArguments_steady bound).bind fun args => (make_steady _ _ _).bind fun call =>
      make_steady _ _ _
  refine line_steady.bind fun line => (target_steady bound).bind fun target => ?_
  refine (eat_steady _).bind fun found => ?_
  split
  · exact (whole_steady bound).bind fun value => make_steady _ _ _
  · refine peekKind_steady.bind fun kind => ?_
    split
    · exact (asCall_steady target).bind fun call => make_steady _ _ _
    · refine (at?_steady _).bind fun comma => ?_
      split
      · refine (make_steady _ _ _).bind fun first => advance_steady.bind fun _ => ?_
        refine (bareArguments_steady bound).bind fun args => ?_
        exact (make_steady _ _ _).bind fun call => make_steady _ _ _
      · exact called line target

theorem resized_steady (preserve : Bool) (bound : Nat) : Steady (resized preserve bound) := by
  refine line_steady.bind fun line => expectName_steady.bind fun name => ?_
  refine (make_steady _ _ _).bind fun target => (arrayBounds_steady bound).bind fun array => ?_
  exact make_steady _ _ _

section Nested

variable {statement : Reader (List Node)}

theorem block_steady (nested : Steady statement) (bound : Nat) (stops : TokenKind → Bool) :
    Steady (block statement bound stops) := by
  have items (turns : Nat) : Steady (blockItems statement stops turns) := by
    induction turns with
    | zero => exact .stop rfl
    | succ turns ih =>
      refine skipSeparators_steady.bind fun _ => peekKind_steady.bind fun kind => ?_
      split
      · exact .pure _
      dsimp only
      split
      · exact .stop_bind rfl
      · have item := nested.bind fun items => expectEnd_steady.bind fun _ => .pure items
        exact (recovering_steady item []).bind fun items => ih.bind fun rest => .pure _
  refine line_steady.bind fun first => (items bound).bind fun items => ?_
  exact lastLine_steady.bind fun last => make_steady _ _ _

theorem inlineItems_steady (nested : Steady statement) (bound : Nat) :
    Steady (inlineItems statement bound) := by
  induction bound with
  | zero => exact .stop rfl
  | succ bound ih =>
    refine peekKind_steady.bind fun kind => ?_
    split
    · exact .pure _
    · exact .pure _
    · exact .pure _
    · exact .pure _
    · refine nested.bind fun items => (eat_steady _).bind fun more => ?_
      split
      · exact ih.bind fun rest => .pure _
      · exact .pure _

theorem singleLineIf_steady (nested : Steady statement) (bound line : Nat) (cond : Node) :
    Steady (singleLineIf statement bound line cond) := by
  have close (body : Node) (otherwise : Option Node) : Steady (do
      if (← at? (.keyword .kwEnd)) && (← peekSecond) == .keyword .kwIf then
        let _ ← advance
        let _ ← advance
      make (.ifStmt true [⟨cond, body⟩] otherwise) line) := by
    refine (at?_steady _).bind fun isEnd => peekSecond_steady.bind fun second => ?_
    dsimp only
    split
    · exact advance_steady.bind fun _ => advance_steady.bind fun _ => make_steady _ _ _
    · exact make_steady _ _ _
  refine (inlineItems_steady nested bound).bind fun items => (make_steady _ _ _).bind fun body => ?_
  refine (eat_steady _).bind fun hasElse => ?_
  dsimp only
  split
  · refine (inlineItems_steady nested bound).bind fun items => ?_
    exact ((make_steady _ _ _).map some).bind fun otherwise => close body otherwise
  · exact close body none

theorem ifStmt_steady (nested : Steady statement) (bound : Nat) :
    Steady (ifStmt statement bound) := by
  have arms (stops : TokenKind → Bool) (turns : Nat) (arms : List (IfArm Node))
      (otherwise : Option Node) : Steady
      (ifArms (block statement bound) stops (Expression.whole bound) turns arms otherwise) := by
    induction turns generalizing arms otherwise with
    | zero => exact .stop rfl
    | succ turns ih =>
      refine (eat_steady _).bind fun isElseIf => ?_
      split
      · refine (whole_steady bound).bind fun cond => (expect_steady _).bind fun _ => ?_
        exact (block_steady nested bound _).bind fun body => ih _ _
      · refine (eat_steady _).bind fun isElse => ?_
        split
        · exact (block_steady nested bound _).bind fun body => ih _ _
        · exact .pure _
  refine (expect_steady _).bind fun first => (whole_steady bound).bind fun cond => ?_
  refine (expect_steady _).bind fun _ => peekKind_steady.bind fun kind => ?_
  split
  · exact singleLineIf_steady nested bound _ cond
  · refine (block_steady nested bound _).bind fun body => (arms _ bound _ _).bind fun arms => ?_
    refine (expect_steady _).bind fun _ => (expect_steady _).bind fun _ => ?_
    exact lastLine_steady.bind fun last => make_steady _ _ _

theorem caseTest_steady (bound : Nat) : Steady (caseTest bound) := by
  refine (eat_steady _).bind fun isComparison => ?_
  split
  · refine peekKind_steady.bind fun kind => ?_
    split
    · exact .stop rfl
    · exact advance_steady.bind fun _ => (whole_steady bound).bind fun value => .pure _
  · refine (whole_steady bound).bind fun low => (eat_steady _).bind fun isRange => ?_
    split
    · exact (whole_steady bound).bind fun high => .pure _
    · exact .pure _

theorem selectStmt_steady (nested : Steady statement) (bound : Nat) :
    Steady (selectStmt statement bound) := by
  have tests := commaList_steady (caseTest_steady bound) bound
  have arms (turns : Nat) : Steady
      (caseArms (block statement bound) (commaList (caseTest bound) bound) turns) := by
    induction turns with
    | zero => exact .stop rfl
    | succ turns ih =>
      refine (eat_steady _).bind fun isCase => ?_
      split
      · refine (eat_steady _).bind fun isElse => ?_
        split
        · refine expectEnd_steady.bind fun _ => ?_
          exact (block_steady nested bound _).bind fun body => .pure _
        · refine tests.bind fun tests => expectEnd_steady.bind fun _ => ?_
          exact (block_steady nested bound _).bind fun body => ih.bind fun rest => .pure _
      · exact .pure _
  refine (expect_steady _).bind fun first => (expect_steady _).bind fun _ => ?_
  refine (whole_steady bound).bind fun subject => expectEnd_steady.bind fun _ => ?_
  refine skipSeparators_steady.bind fun _ => (arms bound).bind fun arms => ?_
  refine (expect_steady _).bind fun _ => (expect_steady _).bind fun _ => ?_
  exact lastLine_steady.bind fun last => make_steady _ _ _

theorem forStmt_steady (nested : Steady statement) (bound : Nat) :
    Steady (forStmt statement bound) := by
  have variable_steady : Steady loopVariable :=
    line_steady.bind fun _ => expectName_steady.bind fun _ => make_steady _ _ _
  have close (first : Token) (shape : Shape Node) : Steady (do
      let _ ← expect (.keyword .kwNext)
      let _ ← eat .identifier
      make shape first.span.line (← lastLine)) := by
    refine (expect_steady _).bind fun _ => (eat_steady _).bind fun _ => ?_
    exact lastLine_steady.bind fun last => make_steady _ _ _
  have body := block_steady nested bound (· == .keyword .kwNext)
  refine (expect_steady _).bind fun first => (eatWord_steady _).bind fun isEach => ?_
  dsimp only
  split
  · refine variable_steady.bind fun item => (expectWord_steady _).bind fun _ => ?_
    exact (whole_steady bound).bind fun collection => body.bind fun body => close first _
  · refine variable_steady.bind fun counter => (expect_steady _).bind fun _ => ?_
    refine (whole_steady bound).bind fun low => (expect_steady _).bind fun _ => ?_
    refine (whole_steady bound).bind fun high => (eatWord_steady _).bind fun isStep => ?_
    refine .branch ((whole_steady bound).map some) (.pure none) fun step => ?_
    exact body.bind fun body => close first _

theorem loopTest?_steady (post : Bool) (bound : Nat) : Steady (loopTest? post bound) := by
  refine (eat_steady _).bind fun isWhile => ?_
  split
  · exact (whole_steady bound).bind fun cond => .pure _
  · refine (eatWord_steady _).bind fun isUntil => ?_
    split
    · exact (whole_steady bound).bind fun cond => .pure _
    · exact .pure _

theorem doStmt_steady (nested : Steady statement) (bound : Nat) :
    Steady (doStmt statement bound) := by
  refine (expect_steady _).bind fun first => (loopTest?_steady false bound).bind fun before => ?_
  refine (block_steady nested bound _).bind fun body => (expect_steady _).bind fun _ => ?_
  dsimp only
  have close (test : Option (LoopGuard Node)) : Steady (do
      make (.loop test body) first.span.line (← lastLine)) :=
    lastLine_steady.bind fun last => make_steady _ _ _
  split
  · exact close before
  · exact (loopTest?_steady true bound).bind close

theorem whileStmt_steady (nested : Steady statement) (bound : Nat) :
    Steady (whileStmt statement bound) := by
  refine (expect_steady _).bind fun first => (whole_steady bound).bind fun cond => ?_
  refine (block_steady nested bound _).bind fun body => (expect_steady _).bind fun _ => ?_
  exact lastLine_steady.bind fun last => make_steady _ _ _

theorem withStmt_steady (nested : Steady statement) (bound : Nat) :
    Steady (withStmt statement bound) := by
  refine (expect_steady _).bind fun first => (whole_steady bound).bind fun subject => ?_
  refine (block_steady nested bound _).bind fun body => (expect_steady _).bind fun _ => ?_
  exact (expect_steady _).bind fun _ => lastLine_steady.bind fun last => make_steady _ _ _

end Nested

theorem onErrorStmt_steady : Steady onErrorStmt := by
  refine (expect_steady _).bind fun first => (expectWord_steady _).bind fun _ => ?_
  refine (eatWord_steady _).bind fun resumes => ?_
  split
  · exact (expect_steady _).bind fun _ => make_steady _ _ _
  · refine (expect_steady _).bind fun _ inv kept state here => ?_
    have isAt : at? .intLiteral state = .ok (state.current.kind == .intLiteral) state := rfl
    unfold expect
    rw [bind_assoc]
    refine .look isAt ?_
    split
    · refine .advance kept here fun after fits passes => ?_
      split
      · exact kept.thrown here passes rfl
      · exact make_steady _ _ _ inv kept after fits
    · rw [bind_assoc]
      exact peekKind_steady.bind (fun kind => .stop_bind rfl) inv kept state here

theorem exitStmt_steady : Steady exitStmt := by
  refine (expect_steady _).bind fun first inv kept state here => ?_
  refine .advance kept here fun after fits passes => ?_
  simp only [pure_bind]
  split
  · exact make_steady _ _ _ inv kept after fits
  · exact make_steady _ _ _ inv kept after fits
  · exact make_steady _ _ _ inv kept after fits
  · exact make_steady _ _ _ inv kept after fits
  · exact make_steady _ _ _ inv kept after fits
  · exact kept.thrown here passes rfl

theorem read_steady (bound : Nat) : Steady (read bound) := by
  induction bound with
  | zero => exact .stop rfl
  | succ bound nested =>
    have listed {item : Reader Node} (each : Steady item) :
        Steady (advance >>= fun _ => commaList item (bound + 1)) :=
      advance_steady.bind fun _ => commaList_steady each _
    refine peek_steady.bind fun token => ?_
    split
    · exact listed (variableDecl_steady _ _ _)
    · exact listed (constantDecl_steady _ _ _)
    · refine advance_steady.bind fun _ => (eatWord_steady _).bind fun preserve => ?_
      exact commaList_steady (resized_steady _ _) _
    · exact (ifStmt_steady nested _).map _
    · exact (selectStmt_steady nested _).map _
    · exact (forStmt_steady nested _).map _
    · exact (doStmt_steady nested _).map _
    · exact (whileStmt_steady nested _).map _
    · exact (withStmt_steady nested _).map _
    · exact onErrorStmt_steady.map _
    · exact exitStmt_steady.map _
    · exact advance_steady.bind fun _ => (assignment_steady _ _).map _
    · refine advance_steady.bind fun _ => (target_steady _).bind fun target => ?_
      exact (asCall_steady target).bind fun call => (make_steady _ _ _).map _
    · refine advance_steady.bind fun _ => (target_steady _).bind fun target => ?_
      exact (make_steady _ _ _).map _
    · refine peekSecond_steady.bind fun second => ?_
      split
      · exact advance_steady.bind fun _ => (assignment_steady _ _).map _
      · exact (simple_steady _).map _
    · exact (simple_steady _).map _
    · exact .stop rfl

end Statement

namespace Declaration

open Statement

theorem parameterType_steady (line : Nat) (isOptional : Bool) (passing : ParamMode) (name : String)
    (paramArray array : Bool) (bound : Nat) :
    Steady (parameterType line isOptional passing name paramArray array bound) := by
  refine (eat_steady _).bind fun typed => ?_
  refine .branch ((Expression.typeName_steady bound).map some) (.pure none) fun typeName => ?_
  refine (eat_steady _).bind fun valued => ?_
  refine .branch ((Expression.whole_steady bound).map some) (.pure none) fun default => ?_
  exact make_steady _ _ _

theorem parameterName_steady (line : Nat) (isOptional : Bool) (passing : ParamMode) (bound : Nat) :
    Steady (parameterName line isOptional passing bound) := by
  refine (eat_steady _).bind fun paramArray => expectName_steady.bind fun name => ?_
  refine (eat_steady _).bind fun isArray => ?_
  split
  · exact (expect_steady _).bind fun _ => parameterType_steady _ _ _ _ _ _ _
  · exact parameterType_steady _ _ _ _ _ _ _

theorem parameter_steady (bound : Nat) : Steady (parameter bound) := by
  rw [parameter_eq]
  refine line_steady.bind fun line => (eat_steady _).bind fun isOptional => ?_
  refine (eat_steady _).bind fun isByVal => ?_
  split
  · exact parameterName_steady _ _ _ _
  · exact (eat_steady _).bind fun _ => parameterName_steady _ _ _ _

theorem parameters_steady (bound : Nat) : Steady (parameters bound) := by
  refine (expect_steady _).bind fun _ => (eat_steady _).bind fun none => ?_
  split
  · exact .pure _
  · refine (commaList_steady (parameter_steady bound) bound).bind fun params => ?_
    exact (expect_steady _).bind fun _ => .pure _

theorem procedureKind_steady (opening : TokenKind) : Steady (procedureKind opening) := by
  unfold procedureKind
  split
  · exact .pure _
  · exact .pure _
  · refine (eat_steady _).bind fun isSet => ?_
    split
    · exact .pure _
    · refine (eatWord_steady _).bind fun isGet => ?_
      split
      · exact .pure _
      · refine (eatWord_steady _).bind fun isLet => ?_
        split
        · exact .pure _
        · exact peekKind_steady.bind fun _ => .stop rfl

theorem procedure_steady (visibility : Visibility) (marks : DeclMarks) (bound : Nat) :
    Steady (procedure visibility marks bound) := by
  refine advance_steady.bind fun first => (procedureKind_steady _).bind fun kind => ?_
  refine expectName_steady.bind fun name => (at?_steady _).bind fun hasParams => ?_
  refine .branch (parameters_steady bound) (.pure []) fun params => ?_
  refine (eat_steady _).bind fun typed => ?_
  refine .branch ((Expression.typeName_steady bound).map some) (.pure none) fun returnType => ?_
  refine expectEnd_steady.bind fun _ => ?_
  refine (block_steady (Statement.read_steady bound) bound _).bind fun body => ?_
  refine (expect_steady _).bind fun _ => (expect_steady _).bind fun _ => ?_
  refine lastLine_steady.bind fun last => (make_steady _ _ _).bind fun method => ?_
  exact expectEnd_steady.bind fun _ => .pure _

theorem members_steady (bound : Nat) : Steady (members bound) := by
  have terminated {item : Reader Node} (each : Steady item) : Steady (do
      let nodes ← commaList item bound
      expectEnd
      return nodes) :=
    (commaList_steady each bound).bind fun nodes => expectEnd_steady.bind fun _ => .pure _
  have declared (visibility : Visibility) (default : Bool) :
      Steady (declarations visibility default bound) := by
    refine peekKind_steady.bind fun kind => ?_
    split
    · exact (procedure_steady _ _ bound).map _
    · exact (procedure_steady _ _ bound).map _
    · exact (procedure_steady _ _ bound).map _
    · exact advance_steady.bind fun _ => terminated (constantDecl_steady _ _ bound)
    · exact advance_steady.bind fun _ => terminated (variableDecl_steady _ _ bound)
    · split
      · exact terminated (variableDecl_steady _ _ bound)
      · exact .stop rfl
    · exact .stop rfl
  refine (eat_steady _).bind fun isPublic => ?_
  dsimp only
  split
  · exact (eatWord_steady _).bind fun default => declared .everyone default
  · refine (eat_steady _).bind fun isPrivate => ?_
    split
    · exact declared .owner false
    · exact declared .undecided false

end Declaration

end ScriptMigration
