import Mathlib.Data.List.Forall2
import ScriptMigration.Proofs.Text.Name
import ScriptMigration.Proofs.Token.Quoted

/-! Reading a text takes no notice of the case of its letters. Each test that the lexer makes gives the
same for a capital letter and for the small one, so that a scanner takes as many characters of a text in
lower case as of the text itself, and reads the same in lower case. -/
namespace ScriptMigration

def Caseless {α : Type} (test : Char → α) : Prop := ∀ c, test c.toLower = test c

section Letters

def capital (place : Nat) : Char := Char.ofNat ('A'.toNat + place)

theorem toLower_or_capital (c : Char) : c.toLower = c ∨ ∃ place < 26, capital place = c := by
  by_cases upper : 'A'.val ≤ c.val ∧ c.val ≤ 'Z'.val
  · have low : 'A'.toNat ≤ c.toNat := UInt32.le_iff_toNat_le.1 upper.1
    have high : c.toNat ≤ 90 := UInt32.le_iff_toNat_le.1 upper.2
    have first : 'A'.toNat = 65 := rfl
    refine .inr ⟨c.toNat - 'A'.toNat, by omega, ?_⟩
    rw [capital, Nat.add_sub_cancel' low, Char.ofNat_toNat]
  · exact .inl (dif_neg upper)

theorem Caseless.of_capitals {α : Type} {test : Char → α}
    (same : ∀ place < 26, test (capital place).toLower = test (capital place)) : Caseless test := by
  intro c
  rcases toLower_or_capital c with small | ⟨place, inside, rfl⟩
  · rw [small]
  · exact same place inside

theorem toLower_toLower : Caseless Char.toLower := .of_capitals (by decide)

theorem utf8Size_toLower : Caseless Char.utf8Size := .of_capitals (by decide)

theorem isDigit_toLower : Caseless Char.isDigit := .of_capitals (by decide)

end Letters

def Text.lower (text : List Char) : List Char := text.map Char.toLower

namespace Text

variable {test : Char → Bool}

@[simp] theorem lower_nil : lower [] = [] := rfl

@[simp] theorem lower_cons (c : Char) (text : List Char) : lower (c :: text) = c.toLower :: lower text := rfl

@[simp] theorem length_lower (text : List Char) : (lower text).length = text.length := List.length_map ..

theorem lower_append (first second : List Char) : lower (first ++ second) = lower first ++ lower second :=
  List.map_append

theorem take_lower (count : Nat) (text : List Char) : (lower text).take count = lower (text.take count) :=
  List.map_take.symm

theorem drop_lower (count : Nat) (text : List Char) : (lower text).drop count = lower (text.drop count) :=
  List.map_drop.symm

@[simp] theorem isEmpty_lower (text : List Char) : (lower text).isEmpty = text.isEmpty := List.isEmpty_map ..

theorem takeWhile_lower (same : Caseless test) (text : List Char) :
    (lower text).takeWhile test = lower (text.takeWhile test) := by
  rw [lower, List.takeWhile_map, show test ∘ Char.toLower = test from funext same]
  rfl

theorem dropWhile_lower (same : Caseless test) (text : List Char) :
    (lower text).dropWhile test = lower (text.dropWhile test) := by
  rw [lower, List.dropWhile_map, show test ∘ Char.toLower = test from funext same]
  rfl

theorem any_head?_lower (same : Caseless test) (text : List Char) :
    (lower text).head?.any test = text.head?.any test := by
  cases text with
  | nil => rfl
  | cons c text => exact same c

theorem head?_lower (mark : Char) (plain : mark.isAlpha = false) (text : List Char) :
    ((lower text).head? == some mark) = (text.head? == some mark) := by
  cases text with
  | nil => rfl
  | cons c text => exact beq_toLower mark plain c

theorem isBlank_toLower : Caseless isBlank := .of_capitals (by decide)

theorem trimChars_lower (text : List Char) : trimChars (lower text) = lower (trimChars text) := by
  have reversed (text : List Char) : (lower text).reverse = lower text.reverse := List.map_reverse.symm
  unfold trimChars
  rw [dropWhile_lower isBlank_toLower, reversed, dropWhile_lower isBlank_toLower, reversed]

end Text

open Text

theorem foldCase_ofList (text : List Char) : foldCase (String.ofList text) = String.ofList (lower text) := by
  apply String.ext
  simp [foldCase, FoldedName.of, String.toList_map, lower]

theorem toList_foldCase (text : String) : (foldCase text).toList = lower text.toList := by
  simp [foldCase, FoldedName.of, String.toList_map, lower]

theorem FoldedName.of_lower (word : List Char) :
    FoldedName.of (String.ofList (lower word)) = FoldedName.of (String.ofList word) := by
  have again : lower (lower word) = lower word := by
    rw [lower, lower, List.map_map,
      show Char.toLower ∘ Char.toLower = Char.toLower from funext toLower_toLower]
  apply congrArg FoldedName.mk
  exact (foldCase_ofList _).trans ((congrArg String.ofList again).trans (foldCase_ofList word).symm)

def LexicalCause.folded : LexicalCause → LexicalCause
  | unexpectedChar char => unexpectedChar char.toLower
  | numberOutOfRange digits => numberOutOfRange (foldCase digits)
  | cause => cause

def Token.folded (token : Token) : Token := { token with lexeme := foldCase token.lexeme }

def Comment.folded (comment : Comment) : Comment := { comment with text := foldCase comment.text }

def LexicalFault.folded (fault : LexicalFault) : LexicalFault := { fault with cause := fault.cause.folded }

def Lexed.folded (lexed : Lexed) : Lexed where
  body := lexed.body.map Token.folded
  finish := lexed.finish.folded
  comments := lexed.comments.map Comment.folded
  faults := lexed.faults.map LexicalFault.folded

def Cursor.folded (cursor : Cursor) : Cursor := { cursor with rest := lower cursor.rest }

namespace Cursor

theorem advance_folded (cursor : Cursor) : cursor.folded.advance = cursor.advance.folded := by
  obtain ⟨line, col, rest⟩ := cursor
  cases rest with
  | nil => rfl
  | cons c rest =>
    simp only [advance, folded, lower_cons, beq_toLower '\n' rfl c, beq_toLower '\r' rfl c,
      head?_lower '\n' rfl, utf8Size_toLower c]
    split
    · rfl
    · split
      · split <;> rfl
      · rfl

theorem skip_folded (cursor : Cursor) (count : Nat) :
    cursor.folded.skip count = (cursor.skip count).folded := by
  induction count generalizing cursor with
  | zero => rfl
  | succ count ih => rw [skip, advance_folded, ih]; rfl

end Cursor

namespace Lexer

def Item.folded : Item → Item
  | token kind lexeme bytes => token kind (foldCase lexeme) bytes
  | lineBreak => lineBreak
  | comment text => comment (foldCase text)
  | fault cause bytes => fault cause.folded bytes

def Scan.folded (found : Scan) : Scan := { found with item := found.item.folded }

section Tests

theorem isSpace_toLower : Caseless isSpace := .of_capitals (by decide)

theorem isLineBreak_toLower : Caseless isLineBreak := .of_capitals (by decide)

theorem isNameStart_toLower : Caseless isNameStart := .of_capitals (by decide)

theorem isNameChar_toLower : Caseless isNameChar := .of_capitals (by decide)

theorem isTypeSuffix_toLower : Caseless isTypeSuffix := .of_capitals (by decide)

theorem isOctDigit_toLower : Caseless isOctDigit := .of_capitals (by decide)

theorem isHexDigit_toLower : Caseless isHexDigit := .of_capitals (by decide)

theorem digit_toLower : Caseless digitsValue.digit := .of_capitals (by decide)

theorem digitsValue_lower (base : Nat) (digits : List Char) :
    digitsValue base (lower digits) = digitsValue base digits := by
  have same (c : Char) : digitsValue.digit c.toLower = digitsValue.digit c := digit_toLower c
  unfold digitsValue lower
  simp only [List.foldl_map, same]

theorem byteWidth_lower (text : List Char) : byteWidth (lower text) = byteWidth text := by
  unfold byteWidth lower
  rw [List.map_map, show Char.utf8Size ∘ Char.toLower = Char.utf8Size from funext utf8Size_toLower]

end Tests

section Scanners

theorem Scan.read_lower (kind : TokenKind) (lexeme text : List Char) (suffix : Nat) :
    Scan.read kind (lower lexeme) (lower text) suffix = (Scan.read kind lexeme text suffix).folded := by
  simp only [Scan.read, Scan.folded, Item.folded, foldCase_ofList, byteWidth_lower, length_lower]

theorem suffixWidth_lower (text : List Char) : suffixWidth (lower text) = suffixWidth text := by
  rcases text with _ | ⟨c, _ | ⟨next, rest⟩⟩
  · rfl
  · simp only [suffixWidth, lower_cons, isTypeSuffix_toLower c]
    rfl
  · simp only [suffixWidth, lower_cons, List.head?_cons, isTypeSuffix_toLower c, beq_toLower '&' rfl c,
      beq_toLower '#' rfl c, isBlank_toLower next, isNameChar_toLower next, beq_toLower ')' rfl next,
      beq_toLower ',' rfl next, beq_toLower ':' rfl next, beq_toLower '(' rfl next]
    rfl

theorem continuationWidth?_lower (text : List Char) :
    continuationWidth? (lower text) = continuationWidth? text := by
  cases text with
  | nil => rfl
  | cons c rest =>
    by_cases isMark : c = '_'
    · subst isMark
      change continuationWidth? ('_' :: lower rest) = _
      unfold continuationWidth?
      simp only [takeWhile_lower isSpace_toLower, length_lower, drop_lower]
      generalize rest.drop (rest.takeWhile isSpace).length = after
      rcases after with _ | ⟨d, after⟩
      · rfl
      · by_cases isReturn : d = '\r'
        · subst isReturn
          rcases after with _ | ⟨e, after⟩
          · rfl
          · by_cases isFeed : e = '\n'
            · subst isFeed
              rfl
            · have isFeed' : e.toLower ≠ '\n' := (toLower_eq_iff rfl).not.2 isFeed
              have turn : Char.toLower '\r' = '\r' := rfl
              simp [turn, isFeed, isFeed']
        · have isReturn' : d.toLower ≠ '\r' := (toLower_eq_iff rfl).not.2 isReturn
          have same := isLineBreak_toLower d
          simp [isReturn, isReturn', same]
    · have isMark' : c.toLower ≠ '_' := (toLower_eq_iff rfl).not.2 isMark
      simp [continuationWidth?, isMark, isMark']

theorem blankWidth_lower (text : List Char) : blankWidth (lower text) = blankWidth text := by
  have step (text : List Char) :
      let bom := if text.head? == some '\uFEFF' then 1 else 0
      let width := bom + ((text.drop bom).takeWhile isSpace).length
      blankWidth (lower text) = (continuationWidth? (text.drop width)).elim width fun more =>
        width + more + blankWidth (lower (text.drop (width + more))) := by
    rw [blankWidth_eq]
    simp only [head?_lower '\uFEFF' rfl, drop_lower, takeWhile_lower isSpace_toLower, length_lower,
      continuationWidth?_lower]
  fun_induction blankWidth text with
  | case1 text bom width ends =>
    have step := step text
    change _ = (continuationWidth? (text.drop width)).elim width _ at step
    rw [step, ends]
    rfl
  | case2 text bom width c after remaining none =>
    have step := step text
    change _ = (continuationWidth? (text.drop width)).elim width _ at step
    rw [step, remaining, none]
    rfl
  | case3 text bom width c after remaining more found shorter ih =>
    have step := step text
    change _ = (continuationWidth? (text.drop width)).elim width _ at step
    have whole : width + (more - 1) + 1 = width + more := by
      have positive := (skips_continuation found).2
      omega
    rw [whole] at ih ⊢
    rw [step, remaining, found, ← ih]
    rfl

theorem quoted_lower (text : List Char) : quoted (lower text) =
    ⟨lower (quoted text).value, (quoted text).width, (quoted text).closed⟩ := by
  fun_induction quoted text with
  | case1 => rfl
  | case2 rest tail ih =>
    change quoted ('"' :: '"' :: lower rest) = _
    rw [quoted_pair, ih]
    rfl
  | case3 c rest alone isQuote =>
    obtain rfl := eq_of_beq isQuote
    have closes : (lower rest).head? ≠ some '"' := by
      rw [← beq_eq_false_iff_ne, head?_lower '"' rfl, beq_eq_false_iff_ne]
      intro opens
      obtain ⟨after, rfl⟩ := List.head?_eq_some_iff.1 opens
      exact alone after rfl rfl
    exact quoted_close closes
  | case4 c rest alone other breaks =>
    have other' : (c.toLower == '"') = false :=
      (beq_toLower '"' rfl c).trans (eq_false_of_ne_true other)
    rw [lower_cons, quoted]
    · rw [other', isLineBreak_toLower c, breaks]
      rfl
    · rintro after isQuote -
      rw [isQuote] at other'
      cases other'
  | case5 c rest alone other within tail ih =>
    have isOther : c.toLower ≠ '"' := (toLower_eq_iff rfl).not.2 fun same => other (beq_iff_eq.2 same)
    have isWithin : isLineBreak c.toLower = false :=
      (isLineBreak_toLower c).trans (eq_false_of_ne_true within)
    rw [lower_cons, quoted_plain isOther (isLineBreak_false.1 isWithin), ih]
    rfl

theorem scanString_lower (rest : List Char) : scanString (lower rest) = (scanString rest).folded := by
  unfold scanString
  rw [quoted_lower]
  dsimp only
  rw [take_lower]
  split
  · exact Scan.read_lower _ _ ('"' :: rest.take _) _
  · rfl

theorem scanEnclosed_lower (first close : Char) (opens : first.isAlpha = false)
    (closes : close.isAlpha = false) (cause : LexicalCause) (same : cause.folded = cause) (token : TokenKind)
    {value : List Char → List Char}
    (values : ∀ text, value (lower text) = lower (value text)) (rest : List Char) :
    scanEnclosed first close cause token value (lower rest) =
      (scanEnclosed first close cause token value rest).folded := by
  have inside : Caseless fun c => c != close && !isLineBreak c := fun c =>
    congrArg₂ (!· && !·) (beq_toLower close closes c) (isLineBreak_toLower c)
  have marks (text : List Char) : first :: lower text ++ [close] = lower (first :: text ++ [close]) := by
    rw [lower_append, lower_cons, (toLower_eq_iff opens).2 rfl, lower_cons, (toLower_eq_iff closes).2 rfl,
      lower_nil]
  unfold scanEnclosed
  simp only [takeWhile_lower inside, length_lower, drop_lower, head?_lower close closes]
  split
  · rw [values, marks, Scan.read_lower]
  · simp only [Scan.folded, Item.folded, same]

theorem radix?_lower (rest : List Char) : radix? (lower rest) = radix? rest := by
  cases rest with
  | nil => rfl
  | cons c rest =>
    have isHex : Caseless fun c => c == 'h' || c == 'H' := .of_capitals (by decide)
    have isOct : Caseless fun c => c == 'o' || c == 'O' := .of_capitals (by decide)
    simp only [radix?, lower_cons, isHex c, isOct c, any_head?_lower isHexDigit_toLower,
      any_head?_lower isOctDigit_toLower, isOctDigit_toLower c]

theorem scanRadix_lower (kind : TokenKind) (base width : Nat) (rest : List Char) :
    scanRadix kind base width (lower rest) = (scanRadix kind base width rest).folded := by
  have test : Caseless fun c => if base == 16 then isHexDigit c else isOctDigit c := fun c =>
    congrArg₂ (if base == 16 then · else ·) (isHexDigit_toLower c) (isOctDigit_toLower c)
  unfold scanRadix
  simp only [drop_lower, takeWhile_lower test, length_lower, digitsValue_lower, head?_lower '&' rfl,
    take_lower]
  generalize List.takeWhile _ (rest.drop (width - 1)) = digits
  split
  · exact Scan.read_lower _ _ ('&' :: rest.take _) _
  · simp only [Scan.folded, Item.folded, LexicalCause.folded, foldCase_ofList]

theorem fraction_lower (text : List Char) : fraction (lower text) = lower (fraction text) := by
  cases text with
  | nil => rfl
  | cons c rest =>
    by_cases isPoint : c = '.'
    · subst isPoint
      change fraction ('.' :: lower rest) = _
      simp only [fraction, takeWhile_lower isDigit_toLower, isEmpty_lower]
      split <;> rfl
    · have isPoint' : c.toLower ≠ '.' := (toLower_eq_iff rfl).not.2 isPoint
      simp [fraction, isPoint, isPoint']

theorem exponent_lower (text : List Char) : exponent (lower text) = lower (exponent text) := by
  cases text with
  | nil => rfl
  | cons e rest =>
    have isMark : Caseless fun e => e == 'e' || e == 'E' := .of_capitals (by decide)
    simp only [exponent, lower_cons, isMark e, head?_lower '+' rfl, head?_lower '-' rfl,
      take_lower, length_lower, drop_lower, takeWhile_lower isDigit_toLower, isEmpty_lower]
    generalize rest.take _ = sign
    split
    · split
      · rfl
      · rw [lower_append, lower_cons]
    · rfl

theorem scanNumber_lower (text : List Char) : scanNumber (lower text) = (scanNumber text).folded := by
  unfold scanNumber
  simp only [takeWhile_lower isDigit_toLower, length_lower, drop_lower, fraction_lower, exponent_lower,
    isEmpty_lower, ← lower_append, suffixWidth_lower, Scan.read_lower]

theorem scanLineComment_lower (first rest : List Char) :
    scanLineComment (lower first) (lower rest) = (scanLineComment first rest).folded := by
  have test : Caseless fun c => !isLineBreak c := fun c => congrArg _ (isLineBreak_toLower c)
  simp only [scanLineComment, takeWhile_lower test, trimChars_lower, length_lower, Scan.folded, Item.folded,
    foldCase_ofList]

theorem scanWord_lower (text : List Char) : scanWord (lower text) = (scanWord text).folded := by
  have test : Caseless fun c => c == '.' || c == '(' || c == '=' := .of_capitals (by decide)
  have isRem (word : List Char) : sameName (String.ofList (lower word)) "rem" =
      sameName (String.ofList word) "rem" := by
    rw [sameName, sameName, FoldedName.of_lower]
  have reserved (word : List Char) : Keyword.find? (String.ofList (lower word)) =
      Keyword.find? (String.ofList word) := by
    simp only [Keyword.find?, sameName, FoldedName.of_lower]
  simp only [scanWord, takeWhile_lower isNameChar_toLower, length_lower, drop_lower, any_head?_lower test,
    isRem, reserved, scanLineComment_lower, suffixWidth_lower, Scan.read_lower]
  split
  · rfl
  · split <;> rfl

theorem mark?_letter {c : Char} (letter : c.isAlpha) (next : Option Char) : mark? c next = none := by
  unfold mark?
  split <;> first | rfl | exact nomatch letter

theorem mark?_lower (c : Char) (rest : List Char) :
    mark? c.toLower (lower rest).head? = mark? c rest.head? := by
  rcases toLower_or_capital c with small | ⟨place, inside, rfl⟩
  · unfold mark?
    rw [small, head?_lower '>' rfl, head?_lower '=' rfl]
  · have letters : ∀ place < 26, (capital place).isAlpha ∧ (capital place).toLower.isAlpha := by decide
    rw [mark?_letter (letters place inside).1, mark?_letter (letters place inside).2]

theorem scanMark_lower (c : Char) (rest : List Char) :
    scanMark c.toLower (lower rest) = (scanMark c rest).folded := by
  have texts (symbol : Mark) : lower symbol.text.toList = symbol.text.toList := by cases symbol <;> decide
  unfold scanMark
  rw [mark?_lower]
  split
  · rename_i symbol _
    have read := Scan.read_lower (.mark symbol) symbol.text.toList symbol.text.toList 0
    rw [texts] at read
    exact read
  · rw [utf8Size_toLower c]
    rfl

theorem scan_lower (c : Char) (rest : List Char) : scan c.toLower (lower rest) = (scan c rest).folded := by
  unfold scan
  simp only [isLineBreak_toLower c, beq_toLower '\r' rfl c, head?_lower '\n' rfl,
    beq_toLower '\'' rfl c, beq_toLower '"' rfl c, beq_toLower '#' rfl c,
    beq_toLower '[' rfl c, isDigit_toLower c, beq_toLower '.' rfl c,
    any_head?_lower isDigit_toLower, isNameStart_toLower c, beq_toLower '&' rfl c, radix?_lower]
  split
  · rfl
  split
  · exact scanLineComment_lower [c] rest
  split
  · exact scanString_lower rest
  split
  · exact scanEnclosed_lower '#' '#' rfl rfl .unterminatedDate rfl _ trimChars_lower rest
  split
  · exact @scanEnclosed_lower '[' ']' rfl rfl .unterminatedName rfl .identifier id (fun _ => rfl) rest
  split
  · exact scanNumber_lower (c :: rest)
  split
  · exact scanWord_lower (c :: rest)
  split
  · exact scanRadix_lower _ _ _ rest
  · exact scanMark_lower c rest

end Scanners

theorem foldCase_empty : foldCase "" = "" := foldCase_ofList []

theorem cons_folded (item : Item) (line col : Nat) (collapsed : Bool) (tail : Lexed) :
    item.folded.cons line col collapsed tail.folded = (item.cons line col collapsed tail).folded := by
  cases item with
  | token kind lexeme bytes => rfl
  | lineBreak =>
    cases collapsed with
    | true => rfl
    | false => simp [Item.folded, Item.cons, Lexed.folded, Token.folded, foldCase_empty]
  | comment text => rfl
  | fault cause bytes =>
    simp [Item.folded, Item.cons, Lexed.folded, Token.folded, LexicalFault.folded, foldCase_empty]

theorem endsLine_folded (item : Item) (before : Bool) :
    item.folded.endsLine before = item.endsLine before := by
  cases item <;> rfl

theorem run_folded (cursor : Cursor) (atLineStart : Bool) :
    run cursor.folded atLineStart = (run cursor atLineStart).folded := by
  have place (cursor : Cursor) : cursor.folded.skip (blankWidth cursor.folded.rest) =
      (cursor.skip (blankWidth cursor.rest)).folded := by
    rw [Cursor.skip_folded]
    exact congrArg (fun width => (cursor.skip width).folded) (blankWidth_lower cursor.rest)
  fun_induction run cursor atLineStart with
  | case1 cursor atLineStart here ends =>
    have done : (cursor.folded.skip (blankWidth cursor.folded.rest)).rest = [] := by
      rw [place, Cursor.folded, ends]
      rfl
    rw [run]
    dsimp only
    split
    · rw [place]
      simp only [Lexed.folded, Token.folded, List.map_nil, foldCase_empty]
      rfl
    · rename_i remaining
      cases done.symm.trans remaining
  | case2 cursor atLineStart here c rest remaining found tail ih =>
    have opens : (cursor.folded.skip (blankWidth cursor.folded.rest)).rest = c.toLower :: lower rest := by
      rw [place, Cursor.folded, remaining]
      rfl
    rw [run]
    dsimp only
    split
    · rename_i ends
      cases ends.symm.trans opens
    · rename_i d rest' remaining'
      obtain ⟨rfl, rfl⟩ := List.cons.inj (remaining'.symm.trans opens)
      have later : run (here.folded.skip (found.more + 1)) (found.item.endsLine atLineStart) =
          tail.folded := by
        rw [Cursor.skip_folded]
        exact ih
      rw [place, scan_lower]
      change found.item.folded.cons here.line here.col atLineStart
        (run (here.folded.skip (found.more + 1)) (found.item.folded.endsLine atLineStart)) = _
      rw [endsLine_folded, later, cons_folded]

end Lexer

open Lexer

theorem lex_foldCase (text : String) : lex (foldCase text) = (lex text).folded := by
  have start : Cursor.start (foldCase text) = (Cursor.start text).folded := by
    rw [Cursor.start, toList_foldCase]
    rfl
  unfold lex
  rw [start, run_folded]

theorem forall₂_of_map {α β : Type} {f : α → β} {first second : List α}
    (same : first.map f = second.map f) : List.Forall₂ (fun left right => f left = f right) first second := by
  rw [← List.forall₂_map_right_iff, ← List.forall₂_map_left_iff (f := f), List.forall₂_eq_eq_eq]
  exact same

/-- Two readings tell the same of a text but for the case of letters: the tokens, the comments and the
faults are as many, each is what the one in its place is, and it stands where that does. -/
structure Lexed.EqButCase (left right : Lexed) : Prop where
  tokens : List.Forall₂ (fun first second => first.kind = second.kind ∧ first.span = second.span ∧
    sameName first.lexeme second.lexeme) left.tokens right.tokens
  comments : List.Forall₂ (fun first second => first.line = second.line ∧ sameName first.text second.text)
    left.comments right.comments
  faults : List.Forall₂ (fun first second => first.cause.folded = second.cause.folded ∧
    first.span = second.span) left.faults right.faults

theorem Lexed.EqButCase.of_folded {left right : Lexed} (folds : left.folded = right.folded) :
    left.EqButCase right := by
  have tokens : left.tokens.map Token.folded = right.tokens.map Token.folded := by
    rw [Lexed.tokens, Lexed.tokens, List.map_append, List.map_append]
    exact congrArg (fun lexed => lexed.body ++ [lexed.finish]) folds
  refine ⟨(forall₂_of_map tokens).imp fun first second same => ?_,
    (forall₂_of_map (congrArg Lexed.comments folds)).imp fun first second same => ?_,
    (forall₂_of_map (congrArg Lexed.faults folds)).imp fun first second same => ?_⟩
  · obtain ⟨kind, lexeme, span⟩ := Token.mk.inj same
    exact ⟨kind, span, sameName_iff_foldCase.2 lexeme⟩
  · obtain ⟨line, text⟩ := Comment.mk.inj same
    exact ⟨line, sameName_iff_foldCase.2 text⟩
  · exact LexicalFault.mk.inj same

/-- Texts that differ in the case of their letters only are read as the same but for that case. -/
theorem lex_ignores_case (left right : String) (same : foldCase left = foldCase right) :
    (lex left).EqButCase (lex right) := by
  apply Lexed.EqButCase.of_folded
  rw [← lex_foldCase, ← lex_foldCase, same]

/-- A reserved word, a mark with its digits, and the word of a comment. -/
theorem lex_ignores_case_capitals :
    foldCase "DIM x: x = &hfF: Rem A" = foldCase "Dim X: x = &HFf: REM a" ∧
      (lex "DIM x: x = &hfF: Rem A").EqButCase (lex "Dim X: x = &HFf: REM a") := by
  have same : foldCase "DIM x: x = &hfF: Rem A" = foldCase "Dim X: x = &HFf: REM a" := by
    rw [← String.toList_inj, toList_foldCase, toList_foldCase]
    decide
  exact ⟨same, lex_ignores_case _ _ same⟩

end ScriptMigration
