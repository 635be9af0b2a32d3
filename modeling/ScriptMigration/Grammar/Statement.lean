import ScriptMigration.Grammar.Expression

/-! Statements and blocks. The statement forms take the reader for a nested block as `block`;
`Statement.read` ties them together. -/
namespace ScriptMigration.Statement

open Reader

/-- Where a variable is declared. -/
inductive Site where
  | member | procedure
deriving DecidableEq

def Site.shape (site : Site) (decl : VarDecl Node) : Shape Node :=
  match site with
  | member => .field decl
  | procedure => .localVar decl

def arrayBounds (bound : Nat) : Reader (ArrayBounds Node) := do
  let _ ← expect (.mark .leftParen)
  if ← eat (.mark .rightParen) then return .dynamic
  let bounds ← commaList (Expression.whole bound) bound
  let _ ← expect (.mark .rightParen)
  return ⟨min bounds.length 255, bounds⟩

def variableDecl (visibility : Visibility) (site : Site) (bound : Nat) : Reader Node := do
  let line ← line
  let name ← expectName
  let array ← if ← at? (.mark .leftParen) then some <$> arrayBounds bound else pure none
  if ← eat (.keyword .kwAs) then
    let asNew ← eat (.keyword .kwNew)
    let typeName ← Expression.typeName bound
    make (site.shape
      { name, visibility, array, typeName := some typeName, marks := { asNew } }) line
  else make (site.shape { name, visibility, array }) line

def constantDecl (visibility : Visibility) (site : Site) (bound : Nat) : Reader Node := do
  let line ← line
  let name ← expectName
  let typeName ←
    if ← eat (.keyword .kwAs) then some <$> Expression.typeName bound else pure none
  let _ ← expect (.mark .equal)
  let init ← Expression.whole bound
  make (site.shape
    { name, visibility, typeName, init := some init, marks := { const := true } }) line

/-- A call without arguments, unless the expression is a call already. -/
def asCall (expr : Node) : Reader Node :=
  match expr.shape with
  | .call .. => return expr
  | _ => make (.call false expr []) expr.line

def assignment (isSet : Bool) (bound : Nat) : Reader Node := do
  let line ← line
  let target ← Expression.target bound
  let _ ← expect (.mark .equal)
  let value ← Expression.whole bound
  make (.assign isSet target value) line

def endsStatement (kind : TokenKind) : Bool := kind.isTerminator || kind == .keyword .kwElse

def bareArgument (bound : Nat) : Reader Node := do
  let kind ← peekKind
  if kind == .mark .comma || endsStatement kind then make .missing (← line)
  else Expression.whole bound

def bareArguments (bound : Nat) : Reader (List Node) := commaList (bareArgument bound) bound

/-- An assignment, or a call with or without parentheses. In `Foo (a), b` the comma shows that the
parentheses belong to the first argument. -/
def simple (bound : Nat) : Reader Node := do
  let line ← line
  let target ← Expression.target bound
  if ← eat (.mark .equal) then
    let value ← Expression.whole bound
    make (.assign false target value) line
  else if endsStatement (← peekKind) then
    make (.exprStmt (← asCall target)) line
  else
    let call ←
      match target.shape, ← at? (.mark .comma) with
      | .call true callee [arg], true => do
        let first ← make (.paren arg) line
        let _ ← advance
        make (.call false callee (first :: (← bareArguments bound))) line
      | _, _ => do make (.call false target (← bareArguments bound)) line
    make (.exprStmt call) line

def resized (preserve : Bool) (bound : Nat) : Reader Node := do
  let line ← line
  let name ← expectName
  let target ← make (.name name) line
  let array ← arrayBounds bound
  make (.redim preserve target array.bounds) line

def blockItems (statement : Reader (List Node)) (stops : TokenKind → Bool) :
    (bound : Nat) → Reader (List Node)
  | 0 => exhausted
  | bound + 1 => do
    skipSeparators
    let kind ← peekKind
    if stops kind then return []
    if kind == .endOfText then stop .unclosedBlock
    let items ← recovering (do
      let items ← statement
      expectEnd
      return items) []
    return items ++ (← blockItems statement stops bound)

def block (statement : Reader (List Node)) (bound : Nat) (stops : TokenKind → Bool) :
    Reader Node := do
  let first ← line
  let items ← blockItems statement stops bound
  make (.block items) first (max (← lastLine) first)

/-- Statements with colons between them, up to `Else` or the end of the line. -/
def inlineItems (statement : Reader (List Node)) : (bound : Nat) → Reader (List Node)
  | 0 => exhausted
  | bound + 1 => do
    match ← peekKind with
    | .newline | .endOfText | .keyword .kwElse | .keyword .kwEnd => return []
    | _ => do
      let items ← statement
      if ← eat (.mark .colon) then return items ++ (← inlineItems statement bound)
      return items

def singleLineIf (statement : Reader (List Node)) (bound : Nat) (line : Nat) (cond : Node) :
    Reader Node := do
  let body ← make (.block (← inlineItems statement bound)) line
  let otherwise ←
    if ← eat (.keyword .kwElse) then
      some <$> make (.block (← inlineItems statement bound)) line
    else pure none
  if (← at? (.keyword .kwEnd)) && (← peekSecond) == .keyword .kwIf then
    let _ ← advance
    let _ ← advance
  make (.ifStmt true [⟨cond, body⟩] otherwise) line

def ifArms (block : (TokenKind → Bool) → Reader Node) (stops : TokenKind → Bool)
    (expr : Reader Node) :
    (bound : Nat) → List (IfArm Node) → Option Node → Reader (List (IfArm Node) × Option Node)
  | 0, _, _ => exhausted
  | bound + 1, arms, otherwise => do
    if ← eat (.keyword .kwElseIf) then
      let cond ← expr
      let _ ← expect (.keyword .kwThen)
      let body ← block stops
      ifArms block stops expr bound (arms ++ [⟨cond, body⟩]) otherwise
    else if ← eat (.keyword .kwElse) then
      let body ← block (· == .keyword .kwEnd)
      ifArms block stops expr bound arms (some body)
    else return (arms, otherwise)

def ifStmt (statement : Reader (List Node)) (bound : Nat) : Reader Node := do
  let first ← expect (.keyword .kwIf)
  let line := first.span.line
  let cond ← Expression.whole bound
  let _ ← expect (.keyword .kwThen)
  let kind ← peekKind
  if kind != .newline && kind != .endOfText then singleLineIf statement bound line cond
  else
    let stops (kind : TokenKind) :=
      kind == .keyword .kwElseIf || kind == .keyword .kwElse || kind == .keyword .kwEnd
    let body ← block statement bound stops
    let (arms, otherwise) ←
      ifArms (block statement bound) stops (Expression.whole bound) bound [⟨cond, body⟩] none
    let _ ← expect (.keyword .kwEnd)
    let _ ← expect (.keyword .kwIf)
    make (.ifStmt false arms otherwise) line (← lastLine)

def caseTest (bound : Nat) : Reader (CasePattern Node) := do
  if ← eat (.keyword .kwIs) then
    let kind ← peekKind
    match (BinaryOp.ofToken? kind).filter BinaryOp.isComparison with
    | none => stop (.expected .comparison kind)
    | some op => do
      let _ ← advance
      return .is op (← Expression.whole bound)
  else
    let low ← Expression.whole bound
    if ← eat (.keyword .kwTo) then return .range low (← Expression.whole bound)
    return .value low

def caseArms (block : (TokenKind → Bool) → Reader Node) (tests : Reader (List (CasePattern Node))) :
    (bound : Nat) → Reader (List (CaseArm Node) × Option Node)
  | 0 => exhausted
  | bound + 1 => do
    if ← eat (.keyword .kwCase) then
      if ← eat (.keyword .kwElse) then
        expectEnd
        let body ← block (· == .keyword .kwEnd)
        return ([], some body)
      else
        let tests' ← tests
        expectEnd
        let body ← block fun kind => kind == .keyword .kwCase || kind == .keyword .kwEnd
        let (arms, otherwise) ← caseArms block tests bound
        return (⟨tests', body⟩ :: arms, otherwise)
    else return ([], none)

def selectStmt (statement : Reader (List Node)) (bound : Nat) : Reader Node := do
  let first ← expect (.keyword .kwSelect)
  let _ ← expect (.keyword .kwCase)
  let subject ← Expression.whole bound
  expectEnd
  skipSeparators
  let (arms, otherwise) ←
    caseArms (block statement bound) (commaList (caseTest bound) bound) bound
  let _ ← expect (.keyword .kwEnd)
  let _ ← expect (.keyword .kwSelect)
  make (.select subject arms otherwise) first.span.line (← lastLine)

def loopVariable : Reader Node := do
  let line ← line
  make (.name (← expectName)) line

def forStmt (statement : Reader (List Node)) (bound : Nat) : Reader Node := do
  let first ← expect (.keyword .kwFor)
  let body := block statement bound (· == .keyword .kwNext)
  let shape ←
    if ← eatWord "each" then do
      let item ← loopVariable
      expectWord "in"
      let collection ← Expression.whole bound
      pure (Shape.forEach item collection (← body))
    else do
      let counter ← loopVariable
      let _ ← expect (.mark .equal)
      let low ← Expression.whole bound
      let _ ← expect (.keyword .kwTo)
      let high ← Expression.whole bound
      let step ← if ← eatWord "step" then some <$> Expression.whole bound else pure none
      pure (.forRange counter low high step (← body))
  let _ ← expect (.keyword .kwNext)
  let _ ← eat .identifier
  make shape first.span.line (← lastLine)

def loopTest? (post : Bool) (bound : Nat) : Reader (Option (LoopGuard Node)) := do
  if ← eat (.keyword .kwWhile) then return some ⟨.whileTrue, ← Expression.whole bound, post⟩
  if ← eatWord "until" then return some ⟨.untilTrue, ← Expression.whole bound, post⟩
  return none

def doStmt (statement : Reader (List Node)) (bound : Nat) : Reader Node := do
  let first ← expect (.keyword .kwDo)
  let before ← loopTest? false bound
  let body ← block statement bound (· == .keyword .kwLoop)
  let _ ← expect (.keyword .kwLoop)
  let test ← if before.isSome then pure before else loopTest? true bound
  make (.loop test body) first.span.line (← lastLine)

def whileStmt (statement : Reader (List Node)) (bound : Nat) : Reader Node := do
  let first ← expect (.keyword .kwWhile)
  let cond ← Expression.whole bound
  let body ← block statement bound (· == .keyword .kwWend)
  let _ ← expect (.keyword .kwWend)
  make (.loop (some ⟨.whileTrue, cond, false⟩) body) first.span.line (← lastLine)

def withStmt (statement : Reader (List Node)) (bound : Nat) : Reader Node := do
  let first ← expect (.keyword .kwWith)
  let subject ← Expression.whole bound
  let body ← block statement bound (· == .keyword .kwEnd)
  let _ ← expect (.keyword .kwEnd)
  let _ ← expect (.keyword .kwWith)
  make (.withStmt subject body) first.span.line (← lastLine)

def onErrorStmt : Reader Node := do
  let first ← expect (.keyword .kwOn)
  expectWord "error"
  if ← eatWord "resume" then
    let _ ← expect (.keyword .kwNext)
    make (.onError .resumeNext) first.span.line
  else
    let _ ← expect (.keyword .kwGoTo)
    let line ← expect .intLiteral
    if line.lexeme != "0" then throw ⟨.unsupportedTrap, line.span⟩
    make (.onError .goToZero) first.span.line

def exitStmt : Reader Node := do
  let first ← expect (.keyword .kwExit)
  let token ← advance
  let target ← match token.kind with
    | .keyword .kwSub => pure ExitTarget.sub
    | .keyword .kwFunction => pure .function
    | .keyword .kwProperty => pure .property
    | .keyword .kwFor => pure .forLoop
    | .keyword .kwDo => pure .doLoop
    | kind => throw ⟨.expected .exitTarget kind, token.span⟩
  make (.exit target) first.span.line

/-- One statement; `nested` reads those inside it. A declaration of several variables is a node for
each; every other statement is one node. -/
def one (nested : Reader (List Node)) (bound : Nat) : Reader (List Node) := do
  let token ← peek
  let line := token.span.line
  match token.kind with
  | .keyword .kwDim => do
    let _ ← advance
    commaList (variableDecl .undecided .procedure bound) bound
  | .keyword .kwConst => do
    let _ ← advance
    commaList (constantDecl .undecided .procedure bound) bound
  | .keyword .kwReDim => do
    let _ ← advance
    let preserve ← eatWord "preserve"
    commaList (resized preserve bound) bound
  | .keyword .kwIf => List.singleton <$> ifStmt nested bound
  | .keyword .kwSelect => List.singleton <$> selectStmt nested bound
  | .keyword .kwFor => List.singleton <$> forStmt nested bound
  | .keyword .kwDo => List.singleton <$> doStmt nested bound
  | .keyword .kwWhile => List.singleton <$> whileStmt nested bound
  | .keyword .kwWith => List.singleton <$> withStmt nested bound
  | .keyword .kwOn => List.singleton <$> onErrorStmt
  | .keyword .kwExit => List.singleton <$> exitStmt
  | .keyword .kwSet => do
    let _ ← advance
    List.singleton <$> assignment true bound
  | .keyword .kwCall => do
    let _ ← advance
    let call ← asCall (← Expression.target bound)
    List.singleton <$> make (.exprStmt call) line
  | .keyword .kwErase => do
    let _ ← advance
    let target ← Expression.target bound
    List.singleton <$> make (.erase target) line
  | .identifier => do
    if token.isWord "let" && (← peekSecond) == .identifier then
      let _ ← advance
      List.singleton <$> assignment false bound
    else List.singleton <$> simple bound
  | .mark .dot => List.singleton <$> simple bound
  | kind => stop (.expectedStatement kind)

def read : (bound : Nat) → Reader (List Node)
  | 0 => exhausted
  | bound + 1 => one (read bound) (bound + 1)

end ScriptMigration.Statement
