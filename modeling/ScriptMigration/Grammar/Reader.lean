import ScriptMigration.Grammar.Fault
import ScriptMigration.Syntax.Node
import ScriptMigration.Token.Lexer

/-! Reading tokens one after the other.

A reader goes over the tokens, gives identities to the nodes it makes, and either returns a value or
stops with a fault where it stands; `recovering` notes the fault and goes on with the next line.

Loops and nested constructs take a bound that exceeds the number of tokens left. Each further turn,
and each way into a nested construct, has read a token, so the bound is never used up. -/
namespace ScriptMigration

namespace Reader

/-- Where a reader stands. The token for the end of the text is never passed. -/
structure State where
  current : Token
  rest : List Token
  /-- The line of the last token that was read. -/
  lastLine : Nat
  /-- The faults noted so far, the latest first. -/
  noted : List SyntaxFault := []
  /-- The next identity. -/
  fresh : Nat := 0

def State.start (lexed : Lexed) : State :=
  match lexed.body with
  | [] => ⟨lexed.finish, [], lexed.finish.span.line, [], 0⟩
  | first :: rest => ⟨first, rest ++ [lexed.finish], first.span.line, [], 0⟩

/-- Passes the tokens before the first whose kind fails `test`. -/
def State.skipWhile (test : TokenKind → Bool) (state : State) : State :=
  go state.current state.lastLine state.rest
where
  go (current : Token) (lastLine : Nat) : List Token → State
    | [] => { state with current, lastLine, rest := [] }
    | next :: rest =>
      if test current.kind then go next current.span.line rest
      else { state with current, lastLine, rest := next :: rest }

end Reader

abbrev Reader := EStateM SyntaxFault Reader.State

namespace Reader

variable {α : Type}

def peek : Reader Token := return (← get).current

def peekKind : Reader TokenKind := return (← peek).kind

def peekSecond : Reader TokenKind := do
  let state ← get
  return ((state.rest.head?).getD state.current).kind

def line : Reader Nat := return (← peek).span.line

def lastLine : Reader Nat := return (← get).lastLine

/-- Passes the next token, unless it is the end of the text. -/
def advance : Reader Token := do
  let state ← get
  match state.rest with
  | [] => return state.current
  | next :: rest =>
    set { state with current := next, rest, lastLine := state.current.span.line }
    return state.current

def stop (cause : SyntaxCause) : Reader α := do
  throw ⟨cause, (← peek).span⟩

/-- Stops because a bound is used up. -/
def exhausted : Reader α := stop .nestedTooDeep

def at? (kind : TokenKind) : Reader Bool := return (← peekKind) == kind

def atWord (word : String) : Reader Bool := return (← peek).isWord word

def eat (kind : TokenKind) : Reader Bool := do
  if ← at? kind then
    let _ ← advance
    return true
  return false

def eatWord (word : String) : Reader Bool := do
  if ← atWord word then
    let _ ← advance
    return true
  return false

def expect (kind : TokenKind) : Reader Token := do
  if ← at? kind then advance else stop (.expected (.token kind) (← peekKind))

def expectWord (word : String) : Reader Unit := do
  if !(← eatWord word) then stop (.expected (.word word) (← peekKind))

def expectName : Reader String := do
  if ← at? .identifier then return (← advance).lexeme
  stop (.expectedName (← peekKind))

def expectAnyName : Reader Token := do
  let kind ← peekKind
  if kind == .identifier || kind.isKeyword then advance else stop (.expectedName kind)

def expectEnd : Reader Unit := do
  let kind ← peekKind
  if kind.isTerminator then
    let _ ← advance
  else stop (.expectedTerminator kind)

def skipSeparators : Reader Unit :=
  modify (·.skipWhile fun kind => kind == .newline || kind == .mark .colon)

def skipLine : Reader Unit := do
  modify (·.skipWhile (· != .newline))
  let _ ← eat .newline

def note (fault : SyntaxFault) : Reader Unit :=
  modify fun state => { state with noted := fault :: state.noted }

/-- Reads a value; after a fault, notes it, passes the rest of the line and gives `fallback`. -/
def recovering (reader : Reader α) (fallback : α) : Reader α := fun state =>
  match reader state with
  | .ok value after => .ok value after
  | .error fault after => (do note fault; skipLine; return fallback : Reader α) after

def make (shape : Shape Node) (line : Nat) (lastLine : Nat := line) : Reader Node :=
  modifyGet fun state =>
    (.mk ⟨⟨state.fresh⟩, line, lastLine, []⟩ shape, { state with fresh := state.fresh + 1 })

def commaList (item : Reader α) : (bound : Nat) → Reader (List α)
  | 0 => exhausted
  | bound + 1 => do
    let first ← item
    if ← eat (.mark .comma) then return first :: (← commaList item bound)
    return [first]

end Reader

end ScriptMigration
