/-! Places in a source text. Lines and columns count from one, and columns and lengths count UTF-8
bytes. The numbers of places are not bounded here; in texts of less than 4 GiB they all fit in 32 bits
(`lex_spans_fit`), and larger texts are not meant. -/
namespace ScriptMigration

/-- The start and the width of a piece of source text. -/
structure Span where
  line : Nat
  col : Nat
  len : Nat
deriving DecidableEq, Repr, Inhabited

namespace Span

def point (line col : Nat) : Span := ⟨line, col, 0⟩

def render (span : Span) : String := s!"{span.line}:{span.col}"

def renderWide (span : Span) : String := s!"{span.line}:{span.col}+{span.len}"

end Span

/-- A place in a text together with what follows it. -/
structure Cursor where
  line : Nat
  col : Nat
  rest : List Char

namespace Cursor

def start (text : String) : Cursor := ⟨1, 1, text.toList⟩

/-- Steps over one character. A line ends at a line feed, at a carriage return, or at both in this
order, which count once. -/
def advance (cursor : Cursor) : Cursor :=
  match cursor.rest with
  | [] => cursor
  | c :: rest =>
    if c == '\n' then ⟨cursor.line + 1, 1, rest⟩
    else if c == '\r' then
      if rest.head? == some '\n' then ⟨cursor.line, cursor.col, rest⟩
      else ⟨cursor.line + 1, 1, rest⟩
    else ⟨cursor.line, cursor.col + c.utf8Size, rest⟩

def skip (cursor : Cursor) : (count : Nat) → Cursor
  | 0 => cursor
  | count + 1 => cursor.advance.skip count

theorem rest_advance (cursor : Cursor) : cursor.advance.rest = cursor.rest.tail := by
  unfold advance
  split
  · simp [*]
  · split
    · simp [*]
    · split
      · split <;> simp [*]
      · simp [*]

theorem rest_skip (cursor : Cursor) (count : Nat) :
    (cursor.skip count).rest = cursor.rest.drop count := by
  induction count generalizing cursor with
  | zero => simp [skip]
  | succ count ih => simp [skip, ih, rest_advance]

end Cursor

end ScriptMigration
