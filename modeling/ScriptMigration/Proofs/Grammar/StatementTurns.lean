import ScriptMigration.Grammar.Statement
import ScriptMigration.Proofs.Grammar.ExpressionTurns

/-! The loops of statements, turn by turn, and the way from a statement to those inside it. -/
namespace ScriptMigration.Statement

open Reader Expression

variable {deep : Prop} {cost bound fuel fuel' : Nat}

theorem arrayBounds_agrees (bounds : Bounds deep bound fuel fuel') :
    Agrees deep 1 bound (arrayBounds fuel) (arrayBounds fuel') := by
  refine (expect_mark _).past fun _ => (eat_agrees _).step fun closed => ?_
  split
  · exact .pure _
  · refine (commaList_agrees (whole_agrees bounds) (Nat.le_refl 1) bounds).free.step fun indices => ?_
    exact (expect_mark _).free.step fun _ => .pure _

theorem variableDecl_agrees (visibility : Visibility) (site : Site)
    (bounds : Bounds deep bound fuel fuel') :
    Agrees deep 1 bound (variableDecl visibility site fuel) (variableDecl visibility site fuel') := by
  have typed (line : Nat) (name : String) (array : Option (ArrayBounds Node)) :
      AgreesOn deep 0 bound fuel fuel' (fun fuel => do
        if ← eat (.keyword .kwAs) then
          let asNew ← eat (.keyword .kwNew)
          let typeName ← Expression.typeName fuel
          make (site.shape
            { name, visibility, array, typeName := some typeName, marks := { asNew } }) line
        else make (site.shape { name, visibility, array }) line) := by
    refine (eat_agrees _).step fun found => ?_
    split
    · refine (eat_agrees _).step fun asNew => (typeName_agrees bounds).free.step fun typeName => ?_
      exact make_agrees _ _ _
    · exact make_agrees _ _ _
  refine line_agrees.step fun line => expectName_agrees.past fun name => ?_
  refine (at?_agrees _).step fun found => ?_
  split
  · exact ((arrayBounds_agrees bounds).free.map _).step fun array => typed line name array
  · exact typed line name none

theorem constantDecl_agrees (visibility : Visibility) (site : Site)
    (bounds : Bounds deep bound fuel fuel') :
    Agrees deep 1 bound (constantDecl visibility site fuel) (constantDecl visibility site fuel') := by
  have valued (line : Nat) (name : String) (typeName : Option String) :
      AgreesOn deep 0 bound fuel fuel' (fun fuel => do
        let _ ← expect (.mark .equal)
        let init ← Expression.whole fuel
        make (site.shape
          { name, visibility, typeName, init := some init, marks := { const := true } }) line) := by
    refine (expect_mark _).free.step fun _ => (whole_agrees bounds).free.step fun init => ?_
    exact make_agrees _ _ _
  refine line_agrees.step fun line => expectName_agrees.past fun name => ?_
  refine (eat_agrees _).step fun found => ?_
  split
  · exact ((typeName_agrees bounds).free.map _).step fun typeName => valued line name typeName
  · exact valued line name none

theorem asCall_agrees (expr : Node) : Passing deep 0 bound (asCall expr) := by
  unfold asCall
  split
  · exact .pure _
  · exact make_agrees _ _ _

theorem assignment_agrees (isSet : Bool) (bounds : Bounds deep bound fuel fuel') :
    Agrees deep 1 bound (assignment isSet fuel) (assignment isSet fuel') := by
  refine line_agrees.step fun line => (target_agrees bounds).past fun target => ?_
  refine (expect_mark _).free.step fun _ => (whole_agrees bounds).free.step fun value => ?_
  exact make_agrees _ _ _

theorem bareArgument_agrees (bounds : Bounds deep bound fuel fuel') :
    Agrees deep 0 bound (bareArgument fuel) (bareArgument fuel') := by
  refine peekKind_agrees.step fun kind => ?_
  split
  · exact line_agrees.step fun line => make_agrees _ _ _
  · exact (whole_agrees bounds).free

theorem bareArguments_agrees (bounds : Bounds deep bound fuel fuel') :
    Agrees deep 0 bound (bareArguments fuel) (bareArguments fuel') :=
  commaList_agrees (bareArgument_agrees bounds) (Nat.zero_le 1) bounds

theorem simple_agrees (bounds : Bounds deep bound fuel fuel') :
    Agrees deep 1 bound (simple fuel) (simple fuel') := by
  have called (line : Nat) (call : Node) : Agrees deep 0 bound (make (.exprStmt call) line)
      (make (.exprStmt call) line) := make_agrees _ _ _
  refine line_agrees.step fun line => (target_agrees bounds).past fun target => ?_
  refine (eat_agrees _).step fun found => ?_
  split
  · exact (whole_agrees bounds).free.step fun value => make_agrees _ _ _
  · refine peekKind_agrees.step fun kind => ?_
    split
    · exact (asCall_agrees target).step fun call => called line call
    · refine (at?_agrees _).step fun comma => ?_
      split
      · refine (make_agrees _ _ _).step fun first => advance_agrees.step fun _ => ?_
        refine (bareArguments_agrees bounds).step fun args => (make_agrees _ _ _).step fun call => ?_
        exact called line call
      · refine (bareArguments_agrees bounds).step fun args => (make_agrees _ _ _).step fun call => ?_
        exact called line call

theorem resized_agrees (preserve : Bool) (bounds : Bounds deep bound fuel fuel') :
    Agrees deep 1 bound (resized preserve fuel) (resized preserve fuel') := by
  refine line_agrees.step fun line => expectName_agrees.past fun name => ?_
  refine (make_agrees _ _ _).step fun target => ?_
  exact (arrayBounds_agrees bounds).free.step fun array => make_agrees _ _ _

section Nested

variable {statement statement' : Reader (List Node)}

def blockTurn (statement : Reader (List Node)) (stops : TokenKind → Bool)
    (next : Reader (List Node)) : Reader (List Node) := do
  skipSeparators
  let kind ← peekKind
  if stops kind then return []
  if kind == .endOfText then stop .unclosedBlock
  let items ← recovering (do
    let items ← statement
    expectEnd
    return items) []
  return items ++ (← next)

theorem blockItems_succ (statement : Reader (List Node)) (stops : TokenKind → Bool) (fuel : Nat) :
    blockItems statement stops (fuel + 1) =
      blockTurn statement stops (blockItems statement stops fuel) := rfl

theorem blockTurn_agrees (nested : Agrees deep 1 (bound + 1) statement statement')
    (stops : TokenKind → Bool) {next next' : Reader (List Node)}
    (later : Agrees deep 0 bound next next') :
    Agrees deep 0 (bound + 1) (blockTurn statement stops next) (blockTurn statement' stops next') := by
  refine .separated fun state sound few inLine => ?_
  have isKind : peekKind state = .ok state.current.kind state := rfl
  refine .looks sound isKind ?_
  split
  · exact Agrees.pure _ state sound few
  · split
    · exact Agrees.stop_step _ nofun state sound few
    · rename_i isEnd
      have goesOn : state.current.kind ≠ .endOfText := fun same => isEnd (beq_iff_eq.2 same)
      have item : Agrees deep 1 (bound + 1) (do
          let items ← statement
          expectEnd
          return items) (do
          let items ← statement'
          expectEnd
          return items) :=
        nested.past fun items => expectEnd_agrees.step fun _ => .pure _
      have found := AgreesAt.recovering sound goesOn inLine (item state sound few) []
      refine (found.ahead fun items => ?_).cheaper (Nat.zero_le 1)
      exact (later.restrict (Nat.le_of_lt_succ few)).step fun rest => .pure _

theorem block_agrees (nested : Agrees deep 1 bound statement statement')
    (bounds : Bounds deep bound fuel fuel') (stops : TokenKind → Bool) :
    Agrees deep 0 bound (block statement fuel stops) (block statement' fuel' stops) := by
  have items : Agrees deep 0 bound (blockItems statement stops fuel)
      (blockItems statement' stops fuel') :=
    .turns rfl rfl (fun within _ later => blockTurn_agrees (nested.restrict within) stops later) bounds
  refine line_agrees.step fun first => items.step fun items => lastLine_agrees.step fun last => ?_
  exact make_agrees _ _ _

def inlineTurn (statement next : Reader (List Node)) : Reader (List Node) := do
  match ← peekKind with
  | .newline | .endOfText | .keyword .kwElse | .keyword .kwEnd => return []
  | _ => do
    let items ← statement
    if ← eat (.mark .colon) then return items ++ (← next)
    return items

theorem inlineItems_succ (statement : Reader (List Node)) (fuel : Nat) :
    inlineItems statement (fuel + 1) = inlineTurn statement (inlineItems statement fuel) := rfl

theorem inlineTurn_agrees (nested : Agrees deep 1 (bound + 1) statement statement')
    {next next' : Reader (List Node)} (later : Agrees deep 0 bound next next') :
    Agrees deep 0 (bound + 1) (inlineTurn statement next) (inlineTurn statement' next') := by
  refine peekKind_agrees.step fun kind => ?_
  split
  · exact .pure _
  · exact .pure _
  · exact .pure _
  · exact .pure _
  · refine (nested.ahead fun items => (eat_agrees _).step fun more => ?_).free
    split
    · exact later.step fun rest => .pure _
    · exact .pure _

theorem inlineItems_agrees (nested : Agrees deep 1 bound statement statement')
    (bounds : Bounds deep bound fuel fuel') :
    Agrees deep 0 bound (inlineItems statement fuel) (inlineItems statement' fuel') :=
  .turns rfl rfl (fun within _ later => inlineTurn_agrees (nested.restrict within) later) bounds

theorem singleLineIf_agrees (nested : Agrees deep 1 bound statement statement')
    (bounds : Bounds deep bound fuel fuel') (line : Nat) (cond : Node) :
    Agrees deep 0 bound (singleLineIf statement fuel line cond)
      (singleLineIf statement' fuel' line cond) := by
  have close (body : Node) (otherwise : Option Node) : Passing deep 0 bound (do
      if (← at? (.keyword .kwEnd)) && (← peekSecond) == .keyword .kwIf then
        let _ ← advance
        let _ ← advance
      make (.ifStmt true [⟨cond, body⟩] otherwise) line) := by
    refine (at?_agrees _).step fun isEnd => peekSecond_agrees.step fun second => ?_
    dsimp only
    split
    · exact advance_agrees.step fun _ => advance_agrees.step fun _ => make_agrees _ _ _
    · exact make_agrees _ _ _
  refine (inlineItems_agrees nested bounds).step fun items => (make_agrees _ _ _).step fun body => ?_
  refine (eat_agrees _).step fun otherwise => ?_
  dsimp only
  split
  · refine (inlineItems_agrees nested bounds).step fun items => ?_
    exact ((make_agrees _ _ _).map some).step fun otherwise => close body otherwise
  · exact close body none

def ifArmTurn (block : (TokenKind → Bool) → Reader Node) (stops : TokenKind → Bool)
    (expr : Reader Node)
    (next : List (IfArm Node) × Option Node → Reader (List (IfArm Node) × Option Node))
    (arms : List (IfArm Node) × Option Node) : Reader (List (IfArm Node) × Option Node) := do
  if ← eat (.keyword .kwElseIf) then
    let cond ← expr
    let _ ← expect (.keyword .kwThen)
    let body ← block stops
    next (arms.1 ++ [⟨cond, body⟩], arms.2)
  else if ← eat (.keyword .kwElse) then
    let body ← block (· == .keyword .kwEnd)
    next (arms.1, some body)
  else return arms

theorem ifArms_succ (block : (TokenKind → Bool) → Reader Node) (stops : TokenKind → Bool)
    (expr : Reader Node) (fuel : Nat) (arms : List (IfArm Node) × Option Node) :
    ifArms block stops expr (fuel + 1) arms.1 arms.2 =
      ifArmTurn block stops expr (fun arms => ifArms block stops expr fuel arms.1 arms.2) arms := rfl

variable {block block' : (TokenKind → Bool) → Reader Node} {expr expr' : Reader Node}

theorem ifArmTurn_agrees (nested : ∀ stops, Agrees deep 0 bound (block stops) (block' stops))
    (condition : Agrees deep 0 bound expr expr') (stops : TokenKind → Bool)
    {next next' : List (IfArm Node) × Option Node → Reader (List (IfArm Node) × Option Node)}
    (later : ∀ arms, Agrees deep 0 bound (next arms) (next' arms))
    (arms : List (IfArm Node) × Option Node) :
    Agrees deep 0 (bound + 1) (ifArmTurn block stops expr next arms)
      (ifArmTurn block' stops expr' next' arms) := by
  have elseIf : TokenKind.keyword .kwElseIf ≠ .endOfText := nofun
  refine .eat elseIf ?_ ?_ (Nat.zero_le 1)
  · refine condition.step fun cond => (expect_keyword _).free.step fun _ => ?_
    exact (nested stops).step fun body => later _
  · have otherwise : TokenKind.keyword .kwElse ≠ .endOfText := nofun
    refine .eat otherwise ?_ ?_ (Nat.zero_le 1)
    · exact (nested _).step fun body => later _
    · exact .pure _

theorem ifArms_agrees (nested : ∀ stops, Agrees deep 0 bound (block stops) (block' stops))
    (condition : Agrees deep 0 bound expr expr') (stops : TokenKind → Bool)
    (bounds : Bounds deep bound fuel fuel') (arms : List (IfArm Node)) (otherwise : Option Node) :
    Agrees deep 0 bound (ifArms block stops expr fuel arms otherwise)
      (ifArms block' stops expr' fuel' arms otherwise) :=
  @Agrees.loop _ deep 0 bound (List (IfArm Node) × Option Node)
    (fun fuel arms => ifArms block stops expr fuel arms.1 arms.2)
    (fun fuel arms => ifArms block' stops expr' fuel arms.1 arms.2) (fun _ => rfl) (fun _ => rfl)
    (fun within _ later => ifArmTurn_agrees
      (fun stops => (nested stops).restrict (Nat.le_of_lt within))
      (condition.restrict (Nat.le_of_lt within)) stops later) fuel fuel' bounds (arms, otherwise)

theorem ifStmt_agrees (nested : Agrees deep 1 bound statement statement')
    (bounds : Bounds deep bound fuel fuel') :
    Agrees deep 1 (bound + 1) (ifStmt statement fuel) (ifStmt statement' fuel') := by
  refine (expect_keyword _).ahead fun first => (whole_agrees bounds).free.step fun cond => ?_
  refine (expect_keyword _).free.step fun _ => peekKind_agrees.step fun kind => ?_
  split
  · exact singleLineIf_agrees nested bounds _ cond
  · refine (block_agrees nested bounds _).step fun body => ?_
    refine (ifArms_agrees (block_agrees nested bounds) (whole_agrees bounds).free _ bounds
      [⟨cond, body⟩] none).step fun arms => ?_
    refine (expect_keyword _).free.step fun _ => (expect_keyword _).free.step fun _ => ?_
    exact lastLine_agrees.step fun last => make_agrees _ _ _

theorem caseTest_agrees (bounds : Bounds deep bound fuel fuel') :
    Agrees deep 0 bound (caseTest fuel) (caseTest fuel') := by
  refine (eat_agrees _).step fun isComparison => ?_
  split
  · refine peekKind_agrees.step fun kind => ?_
    split
    · exact .stop _ nofun
    · refine advance_agrees.step fun _ => (whole_agrees bounds).free.step fun value => ?_
      exact .pure _
  · refine (whole_agrees bounds).free.step fun low => (eat_agrees _).step fun isRange => ?_
    split
    · exact (whole_agrees bounds).free.step fun high => .pure _
    · exact .pure _

def caseTurn (block : (TokenKind → Bool) → Reader Node) (tests : Reader (List (CasePattern Node)))
    (next : Reader (List (CaseArm Node) × Option Node)) :
    Reader (List (CaseArm Node) × Option Node) := do
  if ← eat (.keyword .kwCase) then
    if ← eat (.keyword .kwElse) then
      expectEnd
      let body ← block (· == .keyword .kwEnd)
      return ([], some body)
    else
      let tests' ← tests
      expectEnd
      let body ← block fun kind => kind == .keyword .kwCase || kind == .keyword .kwEnd
      let (arms, otherwise) ← next
      return (⟨tests', body⟩ :: arms, otherwise)
  else return ([], none)

theorem caseArms_succ (block : (TokenKind → Bool) → Reader Node)
    (tests : Reader (List (CasePattern Node))) (fuel : Nat) :
    caseArms block tests (fuel + 1) = caseTurn block tests (caseArms block tests fuel) := rfl

variable {tests tests' : Reader (List (CasePattern Node))}

theorem caseTurn_agrees (nested : ∀ stops, Agrees deep 0 bound (block stops) (block' stops))
    (tested : Agrees deep 0 bound tests tests') {next next' : Reader (List (CaseArm Node) × Option Node)}
    (later : Agrees deep 0 bound next next') :
    Agrees deep 0 (bound + 1) (caseTurn block tests next) (caseTurn block' tests' next') := by
  have isCase : TokenKind.keyword .kwCase ≠ .endOfText := nofun
  refine .eat isCase ?_ (.pure _) (Nat.zero_le 1)
  refine (eat_agrees _).step fun isElse => ?_
  split
  · exact expectEnd_agrees.step fun _ => (nested _).step fun body => .pure _
  · refine tested.step fun tests => expectEnd_agrees.step fun _ => (nested _).step fun body => ?_
    exact later.step fun rest => .pure _

theorem caseArms_agrees (nested : ∀ stops, Agrees deep 0 bound (block stops) (block' stops))
    (tested : Agrees deep 0 bound tests tests') (bounds : Bounds deep bound fuel fuel') :
    Agrees deep 0 bound (caseArms block tests fuel) (caseArms block' tests' fuel') :=
  .turns rfl rfl (fun within _ later => caseTurn_agrees
    (fun stops => (nested stops).restrict (Nat.le_of_lt within))
    (tested.restrict (Nat.le_of_lt within)) later) bounds

theorem selectStmt_agrees (nested : Agrees deep 1 bound statement statement')
    (bounds : Bounds deep bound fuel fuel') :
    Agrees deep 1 (bound + 1) (selectStmt statement fuel) (selectStmt statement' fuel') := by
  refine (expect_keyword _).ahead fun first => (expect_keyword _).free.step fun _ => ?_
  refine (whole_agrees bounds).free.step fun subject => expectEnd_agrees.step fun _ => ?_
  refine skipSeparators_agrees.step fun _ => ?_
  refine (caseArms_agrees (block_agrees nested bounds)
    (commaList_agrees (caseTest_agrees bounds) (Nat.zero_le 1) bounds) bounds).step fun arms => ?_
  refine (expect_keyword _).free.step fun _ => (expect_keyword _).free.step fun _ => ?_
  exact lastLine_agrees.step fun last => make_agrees _ _ _

theorem loopVariable_agrees : Passing deep 0 bound loopVariable :=
  line_agrees.step fun _ => expectName_agrees.free.step fun _ => make_agrees _ _ _

theorem forStmt_agrees (nested : Agrees deep 1 bound statement statement')
    (bounds : Bounds deep bound fuel fuel') :
    Agrees deep 1 (bound + 1) (forStmt statement fuel) (forStmt statement' fuel') := by
  refine (expect_keyword _).ahead fun first => ?_
  have close (shape : Shape Node) : Passing deep 0 bound (do
      let _ ← expect (.keyword .kwNext)
      let _ ← eat .identifier
      make shape first.span.line (← lastLine)) := by
    refine (expect_keyword _).free.step fun _ => (eat_agrees _).step fun _ => ?_
    exact lastLine_agrees.step fun last => make_agrees _ _ _
  have body := block_agrees nested bounds (· == .keyword .kwNext)
  refine (eatWord_agrees _).step fun isEach => ?_
  dsimp only
  split
  · refine loopVariable_agrees.step fun item => (expectWord_agrees _).free.step fun _ => ?_
    refine (whole_agrees bounds).free.step fun collection => body.step fun body => ?_
    rw [pure_bind]
    exact close _
  · refine loopVariable_agrees.step fun counter => (expect_mark _).free.step fun _ => ?_
    refine (whole_agrees bounds).free.step fun low => (expect_keyword _).free.step fun _ => ?_
    refine (whole_agrees bounds).free.step fun high => (eatWord_agrees _).step fun isStep => ?_
    have ranged (step : Option Node) : Agrees deep 0 bound (do
        let shape ← pure (.forRange counter low high step (← block statement fuel (· == .keyword .kwNext)))
        let _ ← expect (.keyword .kwNext)
        let _ ← eat .identifier
        make shape first.span.line (← lastLine)) (do
        let shape ← pure (.forRange counter low high step (← block statement' fuel' (· == .keyword .kwNext)))
        let _ ← expect (.keyword .kwNext)
        let _ ← eat .identifier
        make shape first.span.line (← lastLine)) := by
      refine body.step fun body => ?_
      rw [pure_bind]
      exact close _
    split
    · exact ((whole_agrees bounds).free.map some).step ranged
    · exact ranged none

theorem loopTest?_agrees (post : Bool) (bounds : Bounds deep bound fuel fuel') :
    Agrees deep 0 bound (loopTest? post fuel) (loopTest? post fuel') := by
  refine (eat_agrees _).step fun isWhile => ?_
  split
  · exact (whole_agrees bounds).free.step fun cond => .pure _
  · refine (eatWord_agrees _).step fun isUntil => ?_
    split
    · exact (whole_agrees bounds).free.step fun cond => .pure _
    · exact .pure _

theorem doStmt_agrees (nested : Agrees deep 1 bound statement statement')
    (bounds : Bounds deep bound fuel fuel') :
    Agrees deep 1 (bound + 1) (doStmt statement fuel) (doStmt statement' fuel') := by
  refine (expect_keyword _).ahead fun first => (loopTest?_agrees false bounds).step fun before => ?_
  refine (block_agrees nested bounds _).step fun body => (expect_keyword _).free.step fun _ => ?_
  dsimp only
  have close (test : Option (LoopGuard Node)) : Passing deep 0 bound (do
      make (.loop test body) first.span.line (← lastLine)) :=
    lastLine_agrees.step fun last => make_agrees _ _ _
  split
  · exact close before
  · exact (loopTest?_agrees true bounds).step close

theorem whileStmt_agrees (nested : Agrees deep 1 bound statement statement')
    (bounds : Bounds deep bound fuel fuel') :
    Agrees deep 1 (bound + 1) (whileStmt statement fuel) (whileStmt statement' fuel') := by
  refine (expect_keyword _).ahead fun first => (whole_agrees bounds).free.step fun cond => ?_
  refine (block_agrees nested bounds _).step fun body => (expect_keyword _).free.step fun _ => ?_
  exact lastLine_agrees.step fun last => make_agrees _ _ _

theorem withStmt_agrees (nested : Agrees deep 1 bound statement statement')
    (bounds : Bounds deep bound fuel fuel') :
    Agrees deep 1 (bound + 1) (withStmt statement fuel) (withStmt statement' fuel') := by
  refine (expect_keyword _).ahead fun first => (whole_agrees bounds).free.step fun subject => ?_
  refine (block_agrees nested bounds _).step fun body => (expect_keyword _).free.step fun _ => ?_
  exact (expect_keyword _).free.step fun _ => lastLine_agrees.step fun last => make_agrees _ _ _

end Nested

theorem onErrorStmt_agrees : Passing deep 1 bound onErrorStmt := by
  refine (expect_keyword _).past fun first => (expectWord_agrees _).free.step fun _ => ?_
  refine (eatWord_agrees _).step fun resumes => ?_
  split
  · exact (expect_keyword _).free.step fun _ => make_agrees _ _ _
  · have isLiteral : TokenKind.intLiteral ≠ .endOfText := nofun
    refine (expect_keyword _).free.step fun _ => (expect_agrees isLiteral).free.step fun line => ?_
    dsimp only
    split
    · exact .throw_step _ nofun
    · exact make_agrees _ _ _

theorem exitStmt_agrees : Passing deep 1 bound exitStmt := by
  refine (expect_keyword _).past fun first => advance_agrees.step fun token => ?_
  simp only [pure_bind]
  split
  · exact make_agrees _ _ _
  · exact make_agrees _ _ _
  · exact make_agrees _ _ _
  · exact make_agrees _ _ _
  · exact make_agrees _ _ _
  · exact .throw_step _ nofun

theorem one_agrees {statement statement' : Reader (List Node)}
    (nested : Agrees deep 1 bound statement statement') (bounds : Bounds deep (bound + 1) fuel fuel') :
    Agrees deep 1 (bound + 1) (one statement fuel) (one statement' fuel') := by
  have inner := bounds.restrict (Nat.le_succ bound)
  have listed {item item' : Reader Node} (each : Agrees deep 1 (bound + 1) item item') :
      Agrees deep 1 (bound + 1) (advance >>= fun _ => commaList item fuel)
        (advance >>= fun _ => commaList item' fuel') :=
    advance_agrees.step fun _ => commaList_agrees each (Nat.le_refl 1) bounds
  refine peek_agrees.step fun token => ?_
  split
  · exact listed (variableDecl_agrees _ _ bounds)
  · exact listed (constantDecl_agrees _ _ bounds)
  · refine advance_agrees.step fun _ => (eatWord_agrees _).step fun preserve => ?_
    exact commaList_agrees (resized_agrees _ bounds) (Nat.le_refl 1) bounds
  · exact (ifStmt_agrees nested inner).map _
  · exact (selectStmt_agrees nested inner).map _
  · exact (forStmt_agrees nested inner).map _
  · exact (doStmt_agrees nested inner).map _
  · exact (whileStmt_agrees nested inner).map _
  · exact (withStmt_agrees nested inner).map _
  · exact onErrorStmt_agrees.map _
  · exact exitStmt_agrees.map _
  · exact advance_agrees.step fun _ => (assignment_agrees _ bounds).map _
  · refine advance_agrees.step fun _ => (target_agrees bounds).past fun target => ?_
    exact (asCall_agrees target).step fun call => (make_agrees _ _ _).map _
  · refine advance_agrees.step fun _ => (target_agrees bounds).past fun target => ?_
    exact (make_agrees _ _ _).map _
  · refine peekSecond_agrees.step fun second => ?_
    split
    · exact advance_agrees.step fun _ => (assignment_agrees _ bounds).map _
    · exact (simple_agrees bounds).map _
  · exact (simple_agrees bounds).map _
  · exact .stop _ nofun

theorem read_succ (fuel : Nat) : read (fuel + 1) = one (read fuel) (fuel + 1) := rfl

theorem read_agrees (bounds : Bounds deep bound fuel fuel') :
    Agrees deep 1 bound (read fuel) (read fuel') :=
  @Agrees.turns (List Node) deep 1 bound read read rfl rfl
    (fun _ bounds later => one_agrees later bounds) fuel fuel' bounds

end ScriptMigration.Statement
