import ScriptMigration.Text.Name
import ScriptMigration.Text.Quoted
import ScriptMigration.Text.Span

/-! Tokens of the dialect: literals, names, reserved words, symbols, and the marks for the end of a
line and of the text. -/
namespace ScriptMigration

/-- The reserved words. -/
inductive Keyword where
  | kwOption | kwDim | kwPublic | kwPrivate | kwConst | kwReDim | kwAs | kwNew | kwSub
  | kwFunction | kwProperty | kwClass | kwEnd | kwIf | kwThen | kwElse | kwElseIf | kwSelect
  | kwCase | kwIs | kwTo | kwFor | kwNext | kwDo | kwLoop | kwWhile | kwWend | kwWith | kwOn
  | kwGoTo | kwExit | kwCall | kwSet | kwErase | kwByVal | kwByRef | kwOptional | kwParamArray
  | kwTrue | kwFalse | kwNothing | kwNull | kwEmpty | kwNot | kwAnd | kwOr | kwXor | kwEqv
  | kwImp | kwMod
deriving DecidableEq, Repr, Hashable, Inhabited

namespace Keyword

def spelling : Keyword → String
  | kwOption => "Option" | kwDim => "Dim" | kwPublic => "Public" | kwPrivate => "Private"
  | kwConst => "Const" | kwReDim => "ReDim" | kwAs => "As" | kwNew => "New" | kwSub => "Sub"
  | kwFunction => "Function" | kwProperty => "Property" | kwClass => "Class" | kwEnd => "End"
  | kwIf => "If" | kwThen => "Then" | kwElse => "Else" | kwElseIf => "ElseIf"
  | kwSelect => "Select" | kwCase => "Case" | kwIs => "Is" | kwTo => "To" | kwFor => "For"
  | kwNext => "Next" | kwDo => "Do" | kwLoop => "Loop" | kwWhile => "While" | kwWend => "Wend"
  | kwWith => "With" | kwOn => "On" | kwGoTo => "GoTo" | kwExit => "Exit" | kwCall => "Call"
  | kwSet => "Set" | kwErase => "Erase" | kwByVal => "ByVal" | kwByRef => "ByRef"
  | kwOptional => "Optional" | kwParamArray => "ParamArray" | kwTrue => "True"
  | kwFalse => "False" | kwNothing => "Nothing" | kwNull => "Null" | kwEmpty => "Empty"
  | kwNot => "Not" | kwAnd => "And" | kwOr => "Or" | kwXor => "Xor" | kwEqv => "Eqv"
  | kwImp => "Imp" | kwMod => "Mod"

def all : List Keyword :=
  [kwOption, kwDim, kwPublic, kwPrivate, kwConst, kwReDim, kwAs, kwNew, kwSub, kwFunction,
    kwProperty, kwClass, kwEnd, kwIf, kwThen, kwElse, kwElseIf, kwSelect, kwCase, kwIs, kwTo,
    kwFor, kwNext, kwDo, kwLoop, kwWhile, kwWend, kwWith, kwOn, kwGoTo, kwExit, kwCall, kwSet,
    kwErase, kwByVal, kwByRef, kwOptional, kwParamArray, kwTrue, kwFalse, kwNothing, kwNull,
    kwEmpty, kwNot, kwAnd, kwOr, kwXor, kwEqv, kwImp, kwMod]

def find? (spelling : String) : Option Keyword :=
  all.find? fun word => sameName word.spelling spelling

end Keyword

/-- Operators and punctuation. -/
inductive Mark where
  | plus | minus | star | slash | backslash | caret | amp | equal | notEqual | less | lessEqual
  | greater | greaterEqual | leftParen | rightParen | comma | dot | colon
deriving DecidableEq, Repr, Hashable, Inhabited

def Mark.text : Mark → String
  | plus => "+" | minus => "-" | star => "*" | slash => "/" | backslash => "\\" | caret => "^"
  | amp => "&" | equal => "=" | notEqual => "<>" | less => "<" | lessEqual => "<="
  | greater => ">" | greaterEqual => ">=" | leftParen => "(" | rightParen => ")" | comma => ","
  | dot => "." | colon => ":"

def Mark.name : Mark → String
  | plus => "Plus" | minus => "Minus" | star => "Star" | slash => "Slash"
  | backslash => "Backslash" | caret => "Caret" | amp => "Amp" | equal => "Equal"
  | notEqual => "NotEqual" | less => "Less" | lessEqual => "LessEqual"
  | greater => "Greater" | greaterEqual => "GreaterEqual" | leftParen => "LeftParen"
  | rightParen => "RightParen" | comma => "Comma" | dot => "Dot" | colon => "Colon"

inductive TokenKind where
  | intLiteral | floatLiteral | hexLiteral | octLiteral | stringLiteral | dateLiteral
  | identifier
  | keyword (word : Keyword)
  | mark (symbol : Mark)
  /-- The end of a line that holds more than comments. -/
  | newline
  | endOfText
  /-- A place where no token could be read. -/
  | invalid
deriving DecidableEq, Repr, Hashable, Inhabited

namespace TokenKind

def isTerminator : TokenKind → Bool
  | newline | mark .colon | endOfText => true
  | _ => false

def isKeyword : TokenKind → Bool
  | keyword _ => true
  | _ => false

def isLiteral : TokenKind → Bool
  | intLiteral | floatLiteral | hexLiteral | octLiteral | stringLiteral | dateLiteral => true
  | _ => false

def description : TokenKind → String
  | intLiteral => "integer literal"
  | floatLiteral => "floating-point literal"
  | hexLiteral => "hex literal"
  | octLiteral => "octal literal"
  | stringLiteral => "string literal"
  | dateLiteral => "date literal"
  | identifier => "identifier"
  | keyword word => "'" ++ word.spelling ++ "'"
  | mark symbol => "'" ++ symbol.text ++ "'"
  | newline => "end of line"
  | endOfText => "end of file"
  | invalid => "invalid token"

def name : TokenKind → String
  | intLiteral => "IntLiteral" | floatLiteral => "FloatLiteral" | hexLiteral => "HexLiteral"
  | octLiteral => "OctLiteral" | stringLiteral => "StringLiteral"
  | dateLiteral => "DateLiteral" | identifier => "Identifier"
  | keyword word => word.spelling | mark symbol => symbol.name | newline => "Newline"
  | endOfText => "Eof" | invalid => "Error"

end TokenKind

/-- A token. The lexeme of a name has no brackets and no type suffix, that of a string is the
string, that of a date the text between its marks. -/
structure Token where
  kind : TokenKind
  lexeme : String
  span : Span
deriving DecidableEq, Repr, Inhabited

namespace Token

def isWord (token : Token) (word : String) : Bool :=
  token.kind == .identifier && sameName token.lexeme word

/-- The kind of a token, what it reads, and where it stands. -/
def render (token : Token) : String :=
  s!"{token.kind.name}({Text.quoted token.lexeme} @ {token.span.renderWide})"

end Token

/-- A comment without its marker. -/
structure Comment where
  line : Nat
  text : String
deriving DecidableEq, Repr, Inhabited

/-- Why no token can be read at a place. -/
inductive LexicalCause where
  | unexpectedChar (char : Char)
  | unterminatedString
  | unterminatedDate
  | unterminatedName
  | numberOutOfRange (digits : String)
deriving DecidableEq, Repr

structure LexicalFault where
  cause : LexicalCause
  span : Span
deriving DecidableEq, Repr

def LexicalFault.message (fault : LexicalFault) : String :=
  let place := fault.span.render
  match fault.cause with
  | .unexpectedChar char => s!"unexpected character '{char}' at {place}"
  | .unterminatedString => s!"unterminated string at {place}"
  | .unterminatedDate => s!"unterminated date literal at {place}"
  | .unterminatedName => s!"unterminated bracketed identifier at {place}"
  | .numberOutOfRange digits => s!"invalid number at {place}: '{digits}' is out of range"

end ScriptMigration
