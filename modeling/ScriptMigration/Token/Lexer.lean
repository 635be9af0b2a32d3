import ScriptMigration.Number.Core
import ScriptMigration.Text.Blank
import ScriptMigration.Token.Kind

/-! Reading a text as tokens, comments and faults.

`Lexer.scan` reads one item at a character and says how many more characters it takes, so that
each step of `Lexer.run` moves on by at least one. Blanks and line continuations go before each
item; line breaks that follow a line break, or open the text, are dropped. -/
namespace ScriptMigration

/-- What a text reads as. The last token is the only one of kind `endOfText`. -/
structure Lexed where
  /-- The tokens before the end of the text. -/
  body : List Token
  /-- The token for the end of the text. -/
  finish : Token
  comments : List Comment
  faults : List LexicalFault

def Lexed.tokens (lexed : Lexed) : List Token := lexed.body ++ [lexed.finish]

namespace Lexer

def isSpace (c : Char) : Bool := c == ' ' || c == '\t'

def isLineBreak (c : Char) : Bool := c == '\n' || c == '\r'

def isNameStart (c : Char) : Bool := c.isAlpha

def isNameChar (c : Char) : Bool := c.isAlphanum || c == '_'

def isTypeSuffix (c : Char) : Bool :=
  c == '$' || c == '%' || c == '&' || c == '!' || c == '#' || c == '@'

def isOctDigit (c : Char) : Bool := '0' ≤ c && c ≤ '7'

def isHexDigit (c : Char) : Bool :=
  c.isDigit || ('a' ≤ c && c ≤ 'f') || ('A' ≤ c && c ≤ 'F')

def byteWidth (text : List Char) : Nat := (text.map Char.utf8Size).sum

/-- The value of digits in a base; a character that is no digit counts as zero. -/
def digitsValue (base : Nat) (digits : List Char) : Nat :=
  digits.foldl (fun value c => value * base + digit c) 0
where
  digit (c : Char) : Nat :=
    if c.isDigit then c.toNat - '0'.toNat
    else if 'a' ≤ c && c ≤ 'f' then c.toNat - 'a'.toNat + 10
    else if 'A' ≤ c && c ≤ 'F' then c.toNat - 'A'.toNat + 10
    else 0

/-- An underscore, with blanks at most between it and the end of its line, continues the line: the
width of both with the break. -/
def continuationWidth? : List Char → Option Nat
  | '_' :: rest =>
    let spaces := (rest.takeWhile isSpace).length
    match rest.drop spaces with
    | [] => some (1 + spaces)
    | '\r' :: '\n' :: _ => some (1 + spaces + 2)
    | c :: _ => if isLineBreak c then some (1 + spaces + 1) else none
  | _ => none

private theorem length_after_continuation {text after : List Char} {c : Char} {width : Nat}
    (remaining : text.drop width = c :: after) (more : Nat) :
    (text.drop (width + (more - 1) + 1)).length < text.length := by
  have nonempty := congrArg List.length remaining
  simp only [List.length_drop, List.length_cons] at nonempty ⊢
  omega

/-- The width of what stands before a token: a byte-order mark, spaces and tabs, and then, after a
line continuation, the same again. -/
def blankWidth (text : List Char) : Nat :=
  let bom := if text.head? == some '\uFEFF' then 1 else 0
  let width := bom + ((text.drop bom).takeWhile isSpace).length
  match remaining : text.drop width with
  | [] => width
  | c :: after =>
    match continuationWidth? (c :: after) with
    | none => width
    | some more =>
      have shorter := length_after_continuation remaining more
      width + (more - 1) + 1 + blankWidth (text.drop (width + (more - 1) + 1))
termination_by text.length

inductive Item where
  | token (kind : TokenKind) (lexeme : String) (bytes : Nat)
  | lineBreak
  | comment (text : String)
  | fault (cause : LexicalCause) (bytes : Nat)

/-- An item and the number of characters it takes after the first. -/
structure Scan where
  item : Item
  more : Nat

def Scan.read (kind : TokenKind) (lexeme text : List Char) (suffix : Nat) : Scan :=
  ⟨.token kind (String.ofList lexeme) (byteWidth text), text.length - 1 + suffix⟩

/-- The width of a type suffix that stands before `text` and means nothing: `&` and `#` only where
no operand or date can begin, the others where no name goes on. -/
def suffixWidth : List Char → Nat
  | [] => 0
  | c :: rest =>
    if !isTypeSuffix c then 0
    else
      let dropped :=
        match rest.head? with
        | none => true
        | some next =>
          if c == '&' || c == '#' then
            Text.isBlank next || next == ')' || next == ',' || next == ':' || next == '('
          else !isNameChar next
      if dropped then 1 else 0

/-- The text of a string literal after its opening quote. -/
structure Quoted where
  value : List Char
  width : Nat
  closed : Bool

/-- Reads a string literal after its opening quote: two quotes stand for one, a quote alone closes
the literal, and it may not go past its line. -/
def quoted : List Char → Quoted
  | [] => ⟨[], 0, false⟩
  | '"' :: '"' :: rest =>
    let tail := quoted rest
    ⟨'"' :: tail.value, tail.width + 2, tail.closed⟩
  | c :: rest =>
    if c == '"' then ⟨[], 1, true⟩
    else if isLineBreak c then ⟨[], 0, false⟩
    else
      let tail := quoted rest
      ⟨c :: tail.value, tail.width + 1, tail.closed⟩

def scanString (rest : List Char) : Scan :=
  let text := quoted rest
  if text.closed then
    .read .stringLiteral text.value ('"' :: rest.take text.width) 0
  else ⟨.fault .unterminatedString 0, text.width⟩

def scanEnclosed (first close : Char) (cause : LexicalCause) (token : TokenKind)
    (value : List Char → List Char) (rest : List Char) : Scan :=
  let inner := rest.takeWhile fun c => c != close && !isLineBreak c
  if (rest.drop inner.length).head? == some close then
    .read token (value inner) (first :: inner ++ [close]) 0
  else ⟨.fault cause 0, inner.length⟩

def radix? : List Char → Option (TokenKind × Nat × Nat)
  | [] => none
  | c :: rest =>
    if c == 'h' || c == 'H' then
      if rest.head?.any isHexDigit then some (.hexLiteral, 16, 2) else none
    else if c == 'o' || c == 'O' then
      if rest.head?.any isOctDigit then some (.octLiteral, 8, 2) else none
    else if isOctDigit c then some (.octLiteral, 8, 1) else none

/-- A literal such as `&H1F`, below two to the power 63. Its lexeme is the digits, and a closing
`&` belongs to its text. -/
def scanRadix (kind : TokenKind) (base width : Nat) (rest : List Char) : Scan :=
  let after := rest.drop (width - 1)
  let digits := after.takeWhile fun c => if base == 16 then isHexDigit c else isOctDigit c
  if digitsValue base digits < 2 ^ (63 : Nat) then
    let closing := if (after.drop digits.length).head? == some '&' then 1 else 0
    .read kind digits ('&' :: rest.take (width - 1 + digits.length + closing)) 0
  else ⟨.fault (.numberOutOfRange (String.ofList digits)) 0, width - 1 + digits.length⟩

def fraction : List Char → List Char
  | '.' :: rest =>
    let digits := rest.takeWhile Char.isDigit
    if digits.isEmpty then [] else '.' :: digits
  | _ => []

def exponent : List Char → List Char
  | [] => []
  | e :: rest =>
    if e == 'e' || e == 'E' then
      let sign := rest.take (if rest.head? == some '+' || rest.head? == some '-' then 1 else 0)
      let digits := (rest.drop sign.length).takeWhile Char.isDigit
      if digits.isEmpty then [] else e :: sign ++ digits
    else []

def scanNumber (text : List Char) : Scan :=
  let whole := text.takeWhile Char.isDigit
  let point := fraction (text.drop whole.length)
  let power := exponent (text.drop (whole.length + point.length))
  let literal := whole ++ point ++ power
  let kind := if point.isEmpty && power.isEmpty then .intLiteral else .floatLiteral
  .read kind literal literal (suffixWidth (text.drop literal.length))

def scanLineComment (first : List Char) (rest : List Char) : Scan :=
  let line := rest.takeWhile fun c => !isLineBreak c
  ⟨.comment (String.ofList (Text.trimChars line)), first.length - 1 + line.length⟩

/-- A reserved word, a name with its type suffix, or a comment that begins with `Rem`. -/
def scanWord (text : List Char) : Scan :=
  let word := text.takeWhile isNameChar
  let after := text.drop word.length
  let stops := after.head?.any fun c => c == '.' || c == '(' || c == '='
  if sameName (String.ofList word) "rem" && !stops then scanLineComment word after
  else
    match Keyword.find? (String.ofList word) with
    | some found => .read (.keyword found) word word 0
    | none => .read .identifier word word (suffixWidth after)

def mark? (c : Char) (next : Option Char) : Option Mark :=
  match c with
  | '+' => some .plus
  | '-' => some .minus
  | '*' => some .star
  | '/' => some .slash
  | '\\' => some .backslash
  | '^' => some .caret
  | '&' => some .amp
  | '=' => some .equal
  | '(' => some .leftParen
  | ')' => some .rightParen
  | ',' => some .comma
  | '.' => some .dot
  | ':' => some .colon
  | '<' =>
    if next == some '>' then some .notEqual
    else if next == some '=' then some .lessEqual
    else some .less
  | '>' => if next == some '=' then some .greaterEqual else some .greater
  | _ => none

def scanMark (c : Char) (rest : List Char) : Scan :=
  match mark? c rest.head? with
  | some found => .read (.mark found) found.text.toList found.text.toList 0
  | none => ⟨.fault (.unexpectedChar c) c.utf8Size, 0⟩

def scan (c : Char) (rest : List Char) : Scan :=
  if isLineBreak c then
    ⟨.lineBreak, if c == '\r' && rest.head? == some '\n' then 1 else 0⟩
  else if c == '\'' then scanLineComment [c] rest
  else if c == '"' then scanString rest
  else if c == '#' then
    scanEnclosed '#' '#' .unterminatedDate .dateLiteral Text.trimChars rest
  else if c == '[' then scanEnclosed '[' ']' .unterminatedName .identifier id rest
  else if c.isDigit || (c == '.' && rest.head?.any Char.isDigit) then scanNumber (c :: rest)
  else if isNameStart c then scanWord (c :: rest)
  else
    match (if c == '&' then radix? rest else none) with
    | some (kind, base, width) => scanRadix kind base width rest
    | none => scanMark c rest

def Item.cons (item : Item) (line col : Nat) (collapsed : Bool) (tail : Lexed) : Lexed :=
  match item with
  | .token kind lexeme bytes =>
    { tail with body := ⟨kind, lexeme, ⟨line, col, bytes⟩⟩ :: tail.body }
  | .lineBreak =>
    if collapsed then tail
    else { tail with body := ⟨.newline, "", .point line col⟩ :: tail.body }
  | .comment text => { tail with comments := ⟨line, text⟩ :: tail.comments }
  | .fault cause bytes =>
    let span := ⟨line, col, bytes⟩
    { tail with
      body := ⟨.invalid, "", span⟩ :: tail.body
      faults := ⟨cause, span⟩ :: tail.faults }

def Item.endsLine (item : Item) (before : Bool) : Bool :=
  match item with
  | .lineBreak => true
  | .comment _ => before
  | _ => false

/-- Reads the text at a cursor; `atLineStart` tells that the last token was a line break or that
there was none. -/
def run (cursor : Cursor) (atLineStart : Bool) : Lexed :=
  let here := cursor.skip (blankWidth cursor.rest)
  match remaining : here.rest with
  | [] => ⟨[], ⟨.endOfText, "", .point here.line here.col⟩, [], []⟩
  | c :: rest =>
    let found := scan c rest
    let tail := run (here.skip (found.more + 1)) (found.item.endsLine atLineStart)
    found.item.cons here.line here.col atLineStart tail
termination_by cursor.rest.length
decreasing_by
  have shorter : here.rest.length ≤ cursor.rest.length := by
    simp [here, Cursor.rest_skip]
  rw [Cursor.rest_skip, remaining]
  rw [remaining] at shorter
  simp at shorter ⊢
  omega

end Lexer

def lex (text : String) : Lexed := Lexer.run (Cursor.start text) true

end ScriptMigration
