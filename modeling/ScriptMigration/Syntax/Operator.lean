import ScriptMigration.Token.Kind

/-! Operators and how tightly they bind. An operator with powers `(l, r)` takes a left operand
whose operators bind at least as tightly as `l` and a right operand from `r` on; `r = l + 1` makes
all binary operators group to the left. -/
namespace ScriptMigration

inductive BinaryOp where
  | pow | mul | div | intDiv | mod | add | sub | concat
  | eq | ne | lt | gt | le | ge
  /-- Identity of references. -/
  | is
  | and | or | xor | eqv | imp
deriving DecidableEq, Repr, Hashable, Inhabited

namespace BinaryOp

def leftPower : BinaryOp → Nat
  | imp => 1
  | eqv => 3
  | xor => 5
  | or => 7
  | and => 9
  | eq | ne | lt | gt | le | ge | is => 13
  | concat => 15
  | add | sub => 17
  | mod => 19
  | intDiv => 21
  | mul | div => 23
  | pow => 27

def rightPower (op : BinaryOp) : Nat := op.leftPower + 1

def ofToken? : TokenKind → Option BinaryOp
  | .mark .caret => some pow
  | .mark .star => some mul
  | .mark .slash => some div
  | .mark .backslash => some intDiv
  | .keyword .kwMod => some mod
  | .mark .plus => some add
  | .mark .minus => some sub
  | .mark .amp => some concat
  | .mark .equal => some eq
  | .mark .notEqual => some ne
  | .mark .less => some lt
  | .mark .greater => some gt
  | .mark .lessEqual => some le
  | .mark .greaterEqual => some ge
  | .keyword .kwIs => some is
  | .keyword .kwAnd => some and
  | .keyword .kwOr => some or
  | .keyword .kwXor => some xor
  | .keyword .kwEqv => some eqv
  | .keyword .kwImp => some imp
  | _ => none

def isLogical : BinaryOp → Bool
  | and | or | xor | eqv | imp => true
  | _ => false

def isComparison : BinaryOp → Bool
  | eq | ne | lt | gt | le | ge | is => true
  | _ => false

def isArithmetic : BinaryOp → Bool
  | pow | mul | div | intDiv | mod | add | sub => true
  | _ => false

def text : BinaryOp → String
  | pow => "^" | mul => "*" | div => "/" | intDiv => "\\" | mod => "Mod" | add => "+"
  | sub => "-" | concat => "&" | eq => "=" | ne => "<>" | lt => "<" | gt => ">" | le => "<="
  | ge => ">=" | is => "Is" | and => "And" | or => "Or" | xor => "Xor" | eqv => "Eqv"
  | imp => "Imp"

end BinaryOp

inductive UnaryOp where
  | neg | plus | not
deriving DecidableEq, Repr, Hashable, Inhabited

namespace UnaryOp

/-- How tightly the operators of the operand have to bind: `Not a = b` negates the comparison,
`-a ^ b` the power, and `-a * b` only `a`. -/
def operandPower : UnaryOp → Nat
  | not => 11
  | neg | plus => 25

def ofToken? : TokenKind → Option UnaryOp
  | .mark .minus => some neg
  | .mark .plus => some plus
  | .keyword .kwNot => some not
  | _ => none

end UnaryOp

/-- What a logical operator acts on, once its operands are known. -/
inductive LogicalMode where
  | undecided | boolean | bitwise
deriving DecidableEq, Repr, Inhabited

end ScriptMigration
