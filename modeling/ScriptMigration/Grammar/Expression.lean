import ScriptMigration.Grammar.Reader
import ScriptMigration.Number.Decimal

/-! Expressions. Operators are read by their binding powers, and names, members and calls bind
tighter than all of them.

The parts of the grammar take the reader for a nested expression as `expr`; `Expression.read` ties
them together. -/
namespace ScriptMigration.Expression

open Reader

/-- The value of a numeric literal. A decimal integer of two to the power 63 or more is a float. -/
def numeral? (token : Token) : Option Literal :=
  let value (base : Nat) := Lexer.digitsValue base token.lexeme.toList
  let whole (base : Nat) :=
    if value base < 2 ^ (63 : Nat) then some (Literal.int (Int64.ofNat (value base))) else none
  match token.kind with
  | .hexLiteral => whole 16
  | .octLiteral => whole 8
  | .intLiteral => whole 10 <|> (Decimal.toBinary64? token.lexeme).map .float
  | _ => (Decimal.toBinary64? token.lexeme).map .float

def typeNameTail : (bound : Nat) → String → Reader String
  | 0, _ => exhausted
  | bound + 1, name => do
    if ← eat (.mark .dot) then
      let part ← expectAnyName
      typeNameTail bound (name ++ "." ++ part.lexeme)
    else return name

def typeName (bound : Nat) : Reader String := do
  let first ← expectAnyName
  typeNameTail bound first.lexeme

/-- Arguments after their opening parenthesis, with the closing one. -/
def arguments (expr : Reader Node) (bound : Nat) : Reader (List Node) := do
  if ← eat (.mark .rightParen) then return []
  let argument : Reader Node := do
    let kind ← peekKind
    if kind == .mark .comma || kind == .mark .rightParen then make .missing (← line) else expr
  let args ← commaList argument bound
  let _ ← expect (.mark .rightParen)
  return args

def primary (expr : Reader Node) (bound : Nat) : Reader Node := do
  let token ← peek
  let shape ← match token.kind with
    | .intLiteral | .hexLiteral | .octLiteral | .floatLiteral => do
      let _ ← advance
      match numeral? token with
      | some value => pure (Shape.literal value)
      | none => throw ⟨.invalidNumber token.lexeme, token.span⟩
    | .stringLiteral => do
      let _ ← advance
      pure (.literal (.str token.lexeme))
    | .dateLiteral => do
      let _ ← advance
      pure (.literal (.date token.lexeme))
    | .keyword .kwTrue => do
      let _ ← advance
      pure (.literal (.bool true))
    | .keyword .kwFalse => do
      let _ ← advance
      pure (.literal (.bool false))
    | .keyword .kwNothing => do
      let _ ← advance
      pure (.literal .nothing)
    | .keyword .kwNull => do
      let _ ← advance
      pure (.literal .null)
    | .keyword .kwEmpty => do
      let _ ← advance
      pure (.literal .empty)
    | .identifier => do
      let _ ← advance
      pure (.name token.lexeme)
    | .mark .leftParen => do
      let _ ← advance
      let inner ← expr
      let _ ← expect (.mark .rightParen)
      pure (.paren inner)
    | .mark .dot => do
      let _ ← advance
      let name ← expectAnyName
      pure (.member none name.lexeme)
    | .keyword .kwNew => do
      let _ ← advance
      let name ← typeName bound
      let args ← if ← eat (.mark .leftParen) then arguments expr bound else pure []
      pure (.new name args)
    | kind => stop (.expectedValue kind)
  make shape token.span.line

def suffixes (expr : Reader Node) : (bound : Nat) → Node → Reader Node
  | 0, _ => exhausted
  | bound + 1, before => do
    let token ← peek
    match token.kind with
    | .mark .dot => do
      let _ ← advance
      let name ← expectAnyName
      suffixes expr bound (← make (.member (some before) name.lexeme) name.span.line)
    | .mark .leftParen => do
      let _ ← advance
      let args ← arguments expr bound
      suffixes expr bound (← make (.call true before args) token.span.line)
    | _ => return before

def chain (expr : Reader Node) (bound : Nat) : Reader Node := do
  suffixes expr bound (← primary expr bound)

def operand (expr : (power : Nat) → Reader Node) (bound : Nat) : Reader Node := do
  match UnaryOp.ofToken? (← peekKind) with
  | none => chain (expr 0) bound
  | some op => do
    let token ← advance
    make (.unary op (← expr op.operandPower)) token.span.line

/-- The binary operators that bind at least as tightly as `power`, each with its right operand. -/
def operators (expr : (power : Nat) → Reader Node) (power : Nat) :
    (bound : Nat) → Node → Reader Node
  | 0, _ => exhausted
  | bound + 1, left => do
    match BinaryOp.ofToken? (← peekKind) with
    | none => return left
    | some op =>
      if op.leftPower < power then return left
      let token ← advance
      let right ← expr op.rightPower
      operators expr power bound (← make (.binary op left right) token.span.line)

def read : (bound : Nat) → (power : Nat) → Reader Node
  | 0, _ => exhausted
  | bound + 1, power => do
    let left ← operand (read bound) (bound + 1)
    operators (read bound) power (bound + 1) left

def whole (bound : Nat) : Reader Node := read bound 0

/-- An expression without operators, as on the left of an assignment. -/
def target : (bound : Nat) → Reader Node
  | 0 => exhausted
  | bound + 1 => chain (read bound 0) (bound + 1)

end ScriptMigration.Expression
