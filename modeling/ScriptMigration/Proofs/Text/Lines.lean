import Mathlib.Data.List.Basic
import ScriptMigration.Number.Core
import ScriptMigration.Text.Span

/-! The lines of a source text, and the place that a cursor holds: the number of its line, and the bytes
of this line before it. -/
namespace ScriptMigration.Text

def sourceLines : List Char → List (List Char)
  | [] => [[]]
  | c :: rest =>
    if c == '\r' && rest.head? == some '\n' then sourceLines rest
    else if c == '\n' || c == '\r' then [] :: sourceLines rest
    else (sourceLines rest).modifyHead (c :: ·)

def utf8 (text : List Char) : List UInt8 := text.flatMap String.utf8EncodeChar

def lineOf (before : List Char) : Nat := (sourceLines before).length

def lastLine (before : List Char) : List Char := (sourceLines before).getLast?.getD []

def colOf (before : List Char) : Nat := (utf8 (lastLine before)).length + 1

/-- No carriage return at the end of one text with a line feed at the beginning of the other. -/
def Apart (before after : List Char) : Prop :=
  before.getLast? = some '\r' → after.head? ≠ some '\n'

def InLine (text : List Char) : Prop := ∀ c ∈ text, c ≠ '\n' ∧ c ≠ '\r'

def IsBreak (piece : List Char) : Prop := piece = ['\n'] ∨ piece = ['\r'] ∨ piece = ['\r', '\n']

instance : DecidablePred InLine := fun text => text.decidableBAll _

theorem InLine.cons {c : Char} {text : List Char} (other : c ≠ '\n' ∧ c ≠ '\r') (inLine : InLine text) :
    InLine (c :: text) := List.forall_mem_cons.2 ⟨other, inLine⟩

theorem InLine.append {first second : List Char} (left : InLine first) (right : InLine second) :
    InLine (first ++ second) := List.forall_mem_append.2 ⟨left, right⟩

theorem InLine.of_test {test : Char → Bool} {text : List Char} (passed : ∀ c ∈ text, test c)
    (feed : test '\n' = false) (turn : test '\r' = false) : InLine text := by
  intro c listed
  have passes := passed c listed
  constructor
  · rintro rfl
    exact nomatch feed.symm.trans passes
  · rintro rfl
    exact nomatch turn.symm.trans passes

section Lines

variable {before piece after : List Char}

theorem utf8_append (first second : List Char) : utf8 (first ++ second) = utf8 first ++ utf8 second :=
  List.flatMap_append

theorem length_utf8 (text : List Char) : (utf8 text).length = (text.map Char.utf8Size).sum := by
  rw [utf8, List.length_flatMap]
  congr 1
  exact List.map_congr_left fun c _ => String.length_utf8EncodeChar c

theorem utf8_ne_nil (filled : piece ≠ []) : 0 < (utf8 piece).length := by
  obtain ⟨c, rest, rfl⟩ := List.exists_cons_of_ne_nil filled
  rw [length_utf8, List.map_cons, List.sum_cons]
  have := c.utf8Size_pos
  omega

theorem sourceLines_ne_nil (text : List Char) : sourceLines text ≠ [] := by
  induction text with
  | nil => exact List.cons_ne_nil _ _
  | cons c rest ih =>
    unfold sourceLines
    split
    · exact ih
    · split
      · exact List.cons_ne_nil _ _
      · obtain ⟨line, lines, found⟩ := List.exists_cons_of_ne_nil ih
        rw [found]
        exact List.cons_ne_nil _ _

theorem sourceLines_eq (text : List Char) :
    sourceLines text = (sourceLines text).dropLast ++ [lastLine text] := by
  have last := List.getLast?_eq_some_getLast (sourceLines_ne_nil text)
  rw [lastLine, last, Option.getD_some, List.dropLast_concat_getLast]

theorem sourceLines_crlf (opens : after.head? = some '\n') :
    sourceLines ('\r' :: after) = sourceLines after := by
  rw [sourceLines, opens]
  rfl

theorem sourceLines_break {c : Char} (breaks : c = '\n' ∨ c = '\r') (apart : Apart [c] after) :
    sourceLines (c :: after) = [] :: sourceLines after := by
  rw [sourceLines]
  rcases breaks with rfl | rfl
  · rfl
  · have other : (after.head? == some '\n') = false := beq_eq_false_iff_ne.2 (apart rfl)
    rw [other]
    rfl

theorem sourceLines_other {c : Char} (other : c ≠ '\n' ∧ c ≠ '\r') :
    sourceLines (c :: after) = (sourceLines after).modifyHead (c :: ·) := by
  rw [sourceLines, beq_eq_false_iff_ne.2 other.1, beq_eq_false_iff_ne.2 other.2]
  rfl

theorem sourceLines_inLine (inLine : InLine piece) (after : List Char) :
    sourceLines (piece ++ after) = (sourceLines after).modifyHead (piece ++ ·) := by
  induction piece with
  | nil =>
    obtain ⟨line, lines, found⟩ := List.exists_cons_of_ne_nil (sourceLines_ne_nil after)
    rw [List.nil_append, found]
    rfl
  | cons c piece ih =>
    obtain ⟨line, lines, found⟩ := List.exists_cons_of_ne_nil (sourceLines_ne_nil after)
    rw [List.cons_append, sourceLines_other (inLine c List.mem_cons_self),
      ih fun d listed => inLine d (List.mem_cons_of_mem c listed), found]
    rfl

theorem lastLine_cons {line : List Char} (more : sourceLines piece = line :: sourceLines after) :
    lastLine piece = lastLine after := by
  rw [lastLine, lastLine, more, List.getLast?_cons_of_ne_nil (sourceLines_ne_nil after)]

theorem length_sourceLines_le (text : List Char) :
    (sourceLines text).length + (utf8 (lastLine text)).length ≤ (utf8 text).length + 1 := by
  induction text with
  | nil => exact Nat.le_refl _
  | cons c rest ih =>
    have wider : (utf8 (c :: rest)).length = c.utf8Size + (utf8 rest).length := by
      simp only [length_utf8, List.map_cons, List.sum_cons]
    have positive := c.utf8Size_pos
    by_cases opens : c = '\r' ∧ rest.head? = some '\n'
    · obtain ⟨rfl, opens⟩ := opens
      have same := sourceLines_crlf opens
      rw [lastLine] at ih ⊢
      rw [same]
      omega
    by_cases breaks : c = '\n' ∨ c = '\r'
    · have more : sourceLines (c :: rest) = [] :: sourceLines rest := by
        refine sourceLines_break breaks fun isReturn isFeed => opens ⟨?_, isFeed⟩
        exact Option.some.inj isReturn
      rw [lastLine_cons more, more, List.length_cons]
      omega
    · have other : sourceLines (c :: rest) = (sourceLines rest).modifyHead (c :: ·) :=
        sourceLines_other (not_or.1 breaks)
      obtain ⟨line, lines, found⟩ := List.exists_cons_of_ne_nil (sourceLines_ne_nil rest)
      rw [found, List.modifyHead_cons] at other
      cases lines with
      | nil =>
        have last : (utf8 (c :: line)).length = c.utf8Size + (utf8 line).length := by
          simp only [length_utf8, List.map_cons, List.sum_cons]
        rw [lastLine, found] at ih
        rw [lastLine, other]
        simp only [List.length_singleton, List.getLast?_singleton, Option.getD_some] at ih ⊢
        omega
      | cons next lines =>
        rw [lastLine, found] at ih
        rw [lastLine, other]
        simp only [List.length_cons, List.getLast?_cons_cons] at ih ⊢
        omega

theorem lineOf_add_colOf_le (before : List Char) :
    lineOf before + colOf before ≤ (utf8 before).length + 2 := by
  have lines := length_sourceLines_le before
  unfold lineOf colOf
  omega

theorem Apart.left (apart : Apart before (piece ++ after)) : Apart before piece := by
  intro isReturn opens
  refine apart isReturn ?_
  rw [List.head?_append, opens]
  rfl

theorem sourceLines_append (apart : Apart before after) :
    sourceLines (before ++ after) =
      (sourceLines before).dropLast ++ (sourceLines after).modifyHead (lastLine before ++ ·) := by
  induction before with
  | nil =>
    obtain ⟨line, lines, found⟩ := List.exists_cons_of_ne_nil (sourceLines_ne_nil after)
    rw [List.nil_append, found]
    rfl
  | cons c before ih =>
    have nonempty := sourceLines_ne_nil before
    have later : Apart before after := by
      intro isReturn
      cases before with
      | nil => exact nomatch isReturn
      | cons d before => exact apart (by rwa [List.getLast?_cons_cons])
    have lines := ih later
    rw [List.cons_append]
    by_cases breaks : c = '\n' ∨ c = '\r'
    · by_cases isApart : Apart [c] (before ++ after)
      · have isApart' : Apart [c] before := by
          intro isReturn opens
          refine isApart isReturn ?_
          rw [List.head?_append, opens]
          rfl
        have more := sourceLines_break breaks isApart'
        rw [sourceLines_break breaks isApart, lines, lastLine_cons more, more,
          List.dropLast_cons_of_ne_nil nonempty, List.cons_append]
      · obtain ⟨isReturn, opens⟩ := Classical.not_imp.1 isApart
        obtain rfl : c = '\r' := by simpa using isReturn
        have opens := not_not.1 opens
        -- the line feed is not the first one of `after`
        have opens' : before.head? = some '\n' := by
          cases before with
          | nil => exact absurd opens (apart rfl)
          | cons d before => exact opens
        have same := sourceLines_crlf opens'
        rw [sourceLines_crlf opens, lines, lastLine, lastLine, same]
    · have other : c ≠ '\n' ∧ c ≠ '\r' := not_or.1 breaks
      obtain ⟨line, rest, found⟩ := List.exists_cons_of_ne_nil (sourceLines_ne_nil after)
      rw [sourceLines_other other, lines, lastLine, lastLine, sourceLines_other other, found]
      cases known : sourceLines before with
      | nil => exact absurd known nonempty
      | cons first lines =>
        cases lines with
        | nil => rfl
        | cons second lines => rfl

end Lines

section Places

variable {before piece after : List Char}

theorem InLine.apart (inLine : InLine piece) (before : List Char) : Apart before piece :=
  fun _ opens => (inLine _ (List.mem_of_mem_head? opens)).1 rfl

theorem InLine.apart_left (inLine : InLine piece) (after : List Char) : Apart piece after :=
  fun isReturn => absurd rfl (inLine _ (List.mem_of_getLast? isReturn)).2

theorem Apart.append (filled : piece ≠ []) (apart : Apart piece after) (before : List Char) :
    Apart (before ++ piece) after := by
  intro isReturn
  rw [List.getLast?_append_of_ne_nil _ filled] at isReturn
  exact apart isReturn

theorem IsBreak.filled (isBreak : IsBreak piece) : piece ≠ [] := by
  rcases isBreak with rfl | rfl | rfl <;> exact List.cons_ne_nil _ _

theorem lineOf_pos (before : List Char) : 0 < lineOf before :=
  List.length_pos_of_ne_nil (sourceLines_ne_nil before)

theorem sourceLines_append_inLine (inLine : InLine piece) :
    sourceLines (before ++ piece) = (sourceLines before).dropLast ++ [lastLine before ++ piece] := by
  rw [sourceLines_append (inLine.apart before)]
  have alone := sourceLines_inLine inLine []
  rw [List.append_nil] at alone
  rw [alone]
  change _ ++ [lastLine before ++ (piece ++ [])] = _
  rw [List.append_nil]

theorem lineOf_append_inLine (inLine : InLine piece) : lineOf (before ++ piece) = lineOf before := by
  rw [lineOf, sourceLines_append_inLine inLine, lineOf, sourceLines_eq before]
  simp

theorem colOf_append_inLine (inLine : InLine piece) :
    colOf (before ++ piece) = colOf before + (utf8 piece).length := by
  have last : lastLine (before ++ piece) = lastLine before ++ piece := by
    rw [lastLine, sourceLines_append_inLine inLine, List.getLast?_concat, Option.getD_some]
  rw [colOf, last, utf8_append, List.length_append, colOf]
  omega

theorem IsBreak.sourceLines (isBreak : IsBreak piece) : Text.sourceLines piece = [[], []] := by
  rcases isBreak with rfl | rfl | rfl <;> rfl

theorem sourceLines_append_break (isBreak : IsBreak piece) (apart : Apart before piece) :
    sourceLines (before ++ piece) = sourceLines before ++ [[]] := by
  rw [sourceLines_append apart, isBreak.sourceLines, sourceLines_eq before]
  simp

theorem lineOf_append_break (isBreak : IsBreak piece) (apart : Apart before piece) :
    lineOf (before ++ piece) = lineOf before + 1 := by
  rw [lineOf, sourceLines_append_break isBreak apart, List.length_append]
  rfl

theorem slice_line (inLine : InLine piece) (filled : piece ≠ []) (after : List Char) :
    ∃ line, (sourceLines (before ++ piece ++ after))[lineOf before - 1]? = some line ∧
      ((utf8 line).drop (colOf before - 1)).take (utf8 piece).length = utf8 piece := by
  obtain ⟨first, lines, found⟩ := List.exists_cons_of_ne_nil (sourceLines_ne_nil after)
  have apart : Apart before (piece ++ after) := by
    obtain ⟨c, piece, rfl⟩ := List.exists_cons_of_ne_nil filled
    intro _ opens
    exact (inLine c List.mem_cons_self).1 (Option.some.inj opens)
  have whole : sourceLines (before ++ piece ++ after) =
      (sourceLines before).dropLast ++ (lastLine before ++ (piece ++ first)) :: lines := by
    rw [List.append_assoc, sourceLines_append apart, sourceLines_inLine inLine, found]
    rfl
  refine ⟨lastLine before ++ (piece ++ first), ?_, ?_⟩
  · have place : lineOf before - 1 = (sourceLines before).dropLast.length :=
      List.length_dropLast.symm
    rw [whole, place, List.getElem?_append_right (Nat.le_refl _), Nat.sub_self]
    rfl
  · rw [colOf, Nat.add_sub_cancel, utf8_append, utf8_append, List.drop_left, List.take_left]

end Places

section Cursors

/-- A cursor knows its line: how many lines are complete before it, and the width of what it has passed
of its own. -/
def Holds (text : List Char) (cursor : Cursor) : Prop :=
  ∃ complete begun, sourceLines text =
      complete ++ (sourceLines cursor.rest).modifyHead (begun ++ ·) ∧
    cursor.line = complete.length + 1 ∧ cursor.col = (utf8 begun).length + 1

variable {text : List Char} {cursor : Cursor}

theorem Holds.start (text : String) : Holds text.toList (Cursor.start text) := by
  refine ⟨[], [], ?_, rfl, rfl⟩
  obtain ⟨line, lines, found⟩ := List.exists_cons_of_ne_nil (sourceLines_ne_nil text.toList)
  change sourceLines text.toList = [] ++ (sourceLines text.toList).modifyHead ([] ++ ·)
  rw [found]
  rfl

theorem Holds.nextLine {line col : Nat} {c : Char} {rest : List Char}
    (holds : Holds text ⟨line, col, c :: rest⟩) (breaks : c = '\n' ∨ c = '\r')
    (apart : Apart [c] rest) : Holds text ⟨line + 1, 1, rest⟩ := by
  obtain ⟨complete, begun, whole, isLine, isCol⟩ := holds
  obtain ⟨next, lines, found⟩ := List.exists_cons_of_ne_nil (sourceLines_ne_nil rest)
  refine ⟨complete ++ [begun], [], ?_, ?_, rfl⟩
  · rw [whole, sourceLines_break breaks apart, found]
    simp
  · rw [List.length_append]
    exact congrArg (· + 1) isLine

theorem Holds.advance (holds : Holds text cursor) : Holds text cursor.advance := by
  obtain ⟨line, col, rest⟩ := cursor
  cases rest with
  | nil => exact holds
  | cons c rest =>
    unfold Cursor.advance
    dsimp only
    split
    · rename_i isFeed
      obtain rfl := eq_of_beq isFeed
      exact holds.nextLine (.inl rfl) nofun
    · rename_i notFeed
      split
      · rename_i isReturn
        obtain rfl := eq_of_beq isReturn
        split
        · rename_i opens
          obtain ⟨complete, begun, whole, place⟩ := holds
          exact ⟨complete, begun, by rwa [sourceLines_crlf (eq_of_beq opens)] at whole, place⟩
        · rename_i other
          exact holds.nextLine (.inr rfl) fun _ opens => other (beq_iff_eq.2 opens)
      · rename_i notReturn
        obtain ⟨complete, begun, whole, isLine, isCol⟩ := holds
        have other : c ≠ '\n' ∧ c ≠ '\r' :=
          ⟨fun same => notFeed (beq_iff_eq.2 same), fun same => notReturn (beq_iff_eq.2 same)⟩
        obtain ⟨next, lines, found⟩ := List.exists_cons_of_ne_nil (sourceLines_ne_nil rest)
        refine ⟨complete, begun ++ [c], ?_, isLine, ?_⟩
        · rw [whole, sourceLines_other other, found]
          simp
        · have width : (utf8 [c]).length = c.utf8Size := by
            rw [length_utf8]
            rfl
          rw [utf8_append, List.length_append, width]
          dsimp only at isCol ⊢
          omega

theorem Holds.skip (holds : Holds text cursor) (count : Nat) : Holds text (cursor.skip count) := by
  induction count generalizing cursor with
  | zero => exact holds
  | succ count ih => exact ih holds.advance

/-- A cursor that does not stand between a carriage return and its line feed holds its place. -/
theorem Holds.place {before : List Char} (holds : Holds (before ++ cursor.rest) cursor)
    (apart : Apart before cursor.rest) :
    cursor.line = lineOf before ∧ cursor.col = colOf before := by
  obtain ⟨complete, begun, whole, isLine, isCol⟩ := holds
  obtain ⟨line, lines, found⟩ := List.exists_cons_of_ne_nil (sourceLines_ne_nil cursor.rest)
  rw [sourceLines_append apart, found] at whole
  obtain ⟨same, isHead⟩ := List.append_inj' whole rfl
  have begins := (List.cons.inj isHead).1
  have known : lastLine before = begun := List.append_cancel_right begins
  have length := congrArg List.length same
  rw [List.length_dropLast] at length
  have positive := lineOf_pos before
  unfold lineOf at positive ⊢
  refine ⟨?_, ?_⟩
  · omega
  · rw [isCol, colOf, known]

end Cursors

end ScriptMigration.Text
