import Mathlib.Algebra.Group.Nat.Defs
import Mathlib.Data.List.Chain
import ScriptMigration.Proofs.Token.Pieces

/-! A text is read piece by piece: every character belongs to a token, to a comment, or to a piece that
means nothing, and every token stands where its piece does. -/
namespace ScriptMigration

/-- One span begins before another one and ends at the latest where that begins. -/
def Span.Precedes (first second : Span) : Prop :=
  first.line < second.line ∨
    first.line = second.line ∧ first.col < second.col ∧ first.col + first.len ≤ second.col

namespace Lexer

open Text

def textOf (pieces : List Piece) : List Char := pieces.flatMap Piece.text

def readPieces (before : List Char) (atLineStart : Bool) : List Piece → Lexed
  | [] => ⟨[], ⟨.endOfText, "", .point (lineOf before) (colOf before)⟩, [], []⟩
  | piece :: pieces =>
    match piece.item with
    | none => readPieces (before ++ piece.text) atLineStart pieces
    | some item =>
      item.cons (lineOf before) (colOf before) atLineStart
        (readPieces (before ++ piece.text) (item.endsLine atLineStart) pieces)

def AllFit (after : List Char) : List Piece → Prop
  | [] => True
  | piece :: pieces => piece.Fits (textOf pieces ++ after) ∧ AllFit after pieces

section Pieces

variable {before after : List Char} {piece : Piece} {pieces : List Piece}

theorem Piece.Fits.filled (fits : piece.Fits after) : piece.text ≠ [] := by
  cases piece with
  | blank c => exact List.cons_ne_nil _ _
  | continuation spaces ending => exact List.cons_ne_nil _ _
  | lineBreak text => rcases fits.1 with rfl | rfl | rfl <;> exact List.cons_ne_nil _ _
  | comment marker body => exact List.append_ne_nil_of_left_ne_nil fits.2.2 _
  | token kind lexeme raw suffix => exact List.append_ne_nil_of_left_ne_nil fits.1.filled _
  | fault cause text bytes => exact fits.1

theorem inLine_suffix {kind : TokenKind} {lexeme raw suffix : List Char}
    (fits : (Piece.token kind lexeme raw suffix).Fits after) : InLine suffix := by
  rcases fits.2 with rfl | ⟨c, rfl, isSuffix, _⟩
  · exact nofun
  · exact .of_test (List.forall_mem_singleton.2 isSuffix) rfl rfl

/-- No piece ends between a carriage return and its line feed. -/
theorem Piece.Fits.apart (fits : piece.Fits after) : Apart piece.text after := by
  cases piece with
  | blank c =>
    rcases fits with rfl | rfl | rfl <;> exact nofun
  | continuation spaces ending =>
    rcases fits.2 with ⟨isBreak, apart⟩ | ⟨rfl, rfl⟩
    · exact apart.append isBreak.filled ('_' :: spaces)
    · exact fun _ => nofun
  | lineBreak text => exact fits.2
  | comment marker body => exact InLine.apart_left fits.2.1 after
  | token kind lexeme raw suffix =>
    exact InLine.apart_left (.append fits.1.inLine (inLine_suffix fits)) after
  | fault cause text bytes => exact InLine.apart_left fits.2.1 after

theorem textOf_append (first second : List Piece) : textOf (first ++ second) = textOf first ++ textOf second :=
  List.flatMap_append

theorem allFit_append {first second : List Piece} (begins : AllFit (textOf second ++ after) first)
    (ends : AllFit after second) : AllFit after (first ++ second) := by
  induction first with
  | nil => exact ends
  | cons piece pieces ih =>
    refine ⟨?_, ih begins.2⟩
    change piece.Fits (textOf (pieces ++ second) ++ after)
    rw [textOf_append, List.append_assoc]
    exact begins.1

theorem AllFit.middle {first second : List Piece} (fit : AllFit after (first ++ piece :: second)) :
    piece.Fits (textOf second ++ after) := by
  induction first with
  | nil => exact fit.1
  | cons _ _ ih => exact ih fit.2

theorem readPieces_blanks {blanks : List Piece} (means : ∀ piece ∈ blanks, piece.item = none)
    (atLineStart : Bool) (pieces : List Piece) :
    readPieces before atLineStart (blanks ++ pieces) =
      readPieces (before ++ textOf blanks) atLineStart pieces := by
  induction blanks generalizing before with
  | nil =>
    change _ = readPieces (before ++ []) atLineStart pieces
    rw [List.append_nil]
    rfl
  | cons piece blanks ih =>
    have isNone := means piece List.mem_cons_self
    rw [List.cons_append, readPieces, isNone]
    dsimp only
    rw [ih fun piece listed => means piece (List.mem_cons_of_mem _ listed), List.append_assoc]
    rfl

end Pieces

section Blanks

theorem isSpace_iff {c : Char} : isSpace c ↔ c = ' ' ∨ c = '\t' := by
  simp [isSpace]

theorem continuationWidth?_spec {text : List Char} {width : Nat}
    (found : continuationWidth? text = some width) :
    ∃ spaces ending after, text = '_' :: (spaces ++ ending) ++ after ∧
      width = 1 + spaces.length + ending.length ∧ (Piece.continuation spaces ending).Fits after := by
  unfold continuationWidth? at found
  split at found
  · rename_i rest
    obtain ⟨after, whole, dropped, passed⟩ := takeWhile_spec isSpace rest
    have blank : ∀ c ∈ rest.takeWhile isSpace, c = ' ' ∨ c = '\t' := fun c listed =>
      isSpace_iff.1 (passed c listed)
    dsimp only at found
    rw [dropped] at found
    generalize rest.takeWhile isSpace = spaces at *
    subst whole
    split at found
    · obtain rfl := Option.some.inj found
      exact ⟨spaces, [], [], by simp, rfl, blank, .inr ⟨rfl, rfl⟩⟩
    · rename_i after
      obtain rfl := Option.some.inj found
      exact ⟨spaces, ['\r', '\n'], after, by simp, rfl, blank, .inl ⟨.inr (.inr rfl), fun absurd => by cases absurd⟩⟩
    · rename_i c after other
      split at found
      · rename_i breaks
        obtain rfl := Option.some.inj found
        refine ⟨spaces, [c], after, by simp, rfl, blank, .inl ?_⟩
        rcases (by simpa [isLineBreak] using breaks : c = '\n' ∨ c = '\r') with rfl | rfl
        · exact ⟨.inl rfl, fun absurd => by cases absurd⟩
        · refine ⟨.inr (.inl rfl), fun _ opens => ?_⟩
          obtain ⟨rest, rfl⟩ := List.head?_eq_some_iff.1 opens
          exact other rest rfl rfl
      · cases found
  · cases found

def Skips (text : List Char) (width : Nat) : Prop :=
  ∃ blanks after, text = textOf blanks ++ after ∧ (textOf blanks).length = width ∧
    (∀ piece ∈ blanks, piece.item = none) ∧ AllFit after blanks

theorem Skips.append {text : List Char} {first second : Nat} (skips : Skips text first)
    (more : Skips (text.drop first) second) : Skips text (first + second) := by
  obtain ⟨blanks, after, rfl, rfl, means, fit⟩ := skips
  rw [List.drop_left] at more
  obtain ⟨blanks', after', rfl, rfl, means', fit'⟩ := more
  refine ⟨blanks ++ blanks', after', ?_, ?_, ?_, allFit_append fit fit'⟩
  · rw [textOf_append, List.append_assoc]
  · rw [textOf_append, List.length_append]
  · intro piece listed
    exact (List.mem_append.1 listed).elim (means piece) (means' piece)

theorem skips_blanks {chars : List Char} (blank : ∀ c ∈ chars, c = ' ' ∨ c = '\t' ∨ c = '\uFEFF')
    (after : List Char) : Skips (chars ++ after) chars.length := by
  have isText : textOf (chars.map .blank) = chars := by
    rw [textOf, List.flatMap_map]
    exact List.flatMap_singleton' chars
  refine ⟨chars.map .blank, after, by rw [isText], by rw [isText], ?_, ?_⟩
  · intro piece listed
    obtain ⟨c, _, rfl⟩ := List.mem_map.1 listed
    rfl
  · induction chars with
    | nil => trivial
    | cons c chars ih =>
      have rest := fun d listed => blank d (List.mem_cons_of_mem c listed)
      refine ⟨blank c List.mem_cons_self, ih rest ?_⟩
      rw [textOf, List.flatMap_map]
      exact List.flatMap_singleton' chars

theorem skips_spaces (text : List Char) :
    Skips text ((if text.head? == some '\uFEFF' then 1 else 0) +
      ((text.drop (if text.head? == some '\uFEFF' then 1 else 0)).takeWhile isSpace).length) := by
  have mark : Skips text (if text.head? == some '\uFEFF' then 1 else 0) := by
    split
    · rename_i isMark
      obtain ⟨rest, rfl⟩ := List.head?_eq_some_iff.1 (eq_of_beq isMark)
      exact skips_blanks (List.forall_mem_singleton.2 (.inr (.inr rfl))) rest
    · exact @skips_blanks [] nofun text
  refine mark.append ?_
  obtain ⟨after, whole, _, passed⟩ := takeWhile_spec isSpace
    (text.drop (if text.head? == some '\uFEFF' then 1 else 0))
  conv => arg 1; rw [whole]
  exact skips_blanks (fun c listed => (isSpace_iff.1 (passed c listed)).imp_right .inl) after

theorem skips_continuation {text : List Char} {width : Nat}
    (found : continuationWidth? text = some width) : Skips text width ∧ 0 < width := by
  obtain ⟨spaces, ending, after, rfl, rfl, fits⟩ := continuationWidth?_spec found
  refine ⟨⟨[.continuation spaces ending], after, ?_, ?_, ?_, fits, trivial⟩, by omega⟩
  · simp [textOf, Piece.text]
  · simp [textOf, Piece.text]
    omega
  · exact List.forall_mem_singleton.2 rfl

theorem skips_blankWidth (text : List Char) : Skips text (blankWidth text) := by
  fun_induction blankWidth text with
  | case1 text bom width ends => exact skips_spaces text
  | case2 text bom width c after remaining none => exact skips_spaces text
  | case3 text bom width c after remaining more found shorter ih =>
    rw [← remaining] at found
    obtain ⟨continues, positive⟩ := skips_continuation found
    have whole : width + (more - 1) + 1 = width + more := by omega
    rw [whole] at ih ⊢
    exact ((skips_spaces text).append continues).append ih

end Blanks

section Reading

theorem AllFit.apart {pieces : List Piece} {after : List Char} (fit : AllFit after pieces)
    {before : List Char} (apart : Apart before (textOf pieces ++ after)) :
    Apart (before ++ textOf pieces) after := by
  induction pieces generalizing before with
  | nil =>
    change Apart (before ++ []) after
    rwa [List.append_nil]
  | cons piece pieces ih =>
    change Apart (before ++ (piece.text ++ textOf pieces)) after
    rw [← List.append_assoc]
    exact ih fit.2 (fit.1.apart.append fit.1.filled before)

/-- A cursor stands in a text after `before`. -/
structure Stands (text before : List Char) (cursor : Cursor) : Prop where
  whole : text = before ++ cursor.rest
  holds : Holds text cursor
  apart : Apart before cursor.rest

namespace Stands

variable {text before after : List Char} {cursor : Cursor}

theorem place (stands : Stands text before cursor) :
    cursor.line = lineOf before ∧ cursor.col = colOf before :=
  Holds.place (stands.whole ▸ stands.holds) stands.apart

/-- After some pieces a cursor stands in the same text. -/
theorem pieces (stands : Stands text before cursor) {pieces : List Piece}
    (opens : cursor.rest = textOf pieces ++ after) (fit : AllFit after pieces) {width : Nat}
    (isWidth : (textOf pieces).length = width) :
    (cursor.skip width).rest = after ∧ Stands text (before ++ textOf pieces) (cursor.skip width) := by
  have rest : (cursor.skip width).rest = after := by
    rw [Cursor.rest_skip, opens, ← isWidth, List.drop_left]
  refine ⟨rest, ?_, stands.holds.skip width, ?_⟩
  · rw [rest, stands.whole, opens, List.append_assoc]
  · rw [rest]
    exact fit.apart (opens ▸ stands.apart)

theorem start (text : String) : Stands text.toList [] (Cursor.start text) :=
  ⟨rfl, .start text, nofun⟩

end Stands

theorem run_reads (text : List Char) (cursor : Cursor) (atLineStart : Bool) :
    ∀ before, Stands text before cursor →
      ∃ pieces, cursor.rest = textOf pieces ∧ AllFit [] pieces ∧
        run cursor atLineStart = readPieces before atLineStart pieces := by
  fun_induction run cursor atLineStart with
  | case1 cursor atLineStart here remaining =>
    intro before stands
    obtain ⟨blanks, after, opens, width, means, fit⟩ := skips_blankWidth cursor.rest
    obtain ⟨isRest, stands'⟩ := stands.pieces opens fit width
    obtain rfl : after = [] := isRest.symm.trans remaining
    refine ⟨blanks, by rw [opens, List.append_nil], fit, ?_⟩
    have reads := @readPieces_blanks before blanks means atLineStart []
    rw [List.append_nil] at reads
    rw [reads, readPieces, ← stands'.place.1, ← stands'.place.2]
  | case2 cursor atLineStart here c rest remaining found tail ih =>
    intro before stands
    obtain ⟨blanks, after, opens, width, means, fit⟩ := skips_blankWidth cursor.rest
    obtain ⟨isRest, stands'⟩ := stands.pieces opens fit width
    obtain rfl : after = c :: rest := isRest.symm.trans remaining
    obtain ⟨piece, later, isPiece, taken, fits, reads⟩ := scan_takes c rest
    have alone : textOf [piece] = piece.text := List.append_nil _
    have opens' : here.rest = textOf [piece] ++ later := by rw [alone, remaining, isPiece]
    have only : AllFit later [piece] := ⟨fits, trivial⟩
    obtain ⟨isLater, last⟩ := stands'.pieces opens' only (alone ▸ taken)
    obtain ⟨pieces, isText, fit', same⟩ := ih _ last
    obtain rfl : later = textOf pieces := isLater.symm.trans isText
    have follows : textOf (piece :: pieces) = c :: rest := isPiece.symm
    refine ⟨blanks ++ piece :: pieces, ?_, allFit_append ?_ ⟨?_, fit'⟩, ?_⟩
    · rw [textOf_append, follows, ← opens]
    · rw [follows, List.append_nil]
      exact fit
    · rw [List.append_nil]
      exact fits
    · rw [readPieces_blanks means, readPieces, reads]
      dsimp only [tail]
      rw [same, alone, stands'.place.1, stands'.place.2]

end Reading

section Tokens

variable {before after : List Char} {piece : Piece} {pieces : List Piece}

def PlaceLt (first second : List Char) : Prop :=
  lineOf first < lineOf second ∨ lineOf first = lineOf second ∧ colOf first < colOf second

theorem PlaceLt.of_inLine {text : List Char} (inLine : InLine text) (filled : text ≠ []) (before : List Char) :
    PlaceLt before (before ++ text) := by
  have width := utf8_ne_nil filled
  refine .inr ⟨(lineOf_append_inLine inLine).symm, ?_⟩
  rw [colOf_append_inLine inLine]
  omega

theorem PlaceLt.of_break {text : List Char} (isBreak : IsBreak text) (apart : Apart before text) :
    PlaceLt before (before ++ text) := by
  refine .inl ?_
  rw [lineOf_append_break isBreak apart]
  exact Nat.lt_succ_self _

theorem Piece.Fits.placeLt (fits : piece.Fits after) (apart : Apart before (piece.text ++ after)) :
    PlaceLt before (before ++ piece.text) := by
  have filled := fits.filled
  cases piece with
  | blank c =>
    refine .of_inLine ?_ filled before
    rcases fits with rfl | rfl | rfl <;> decide
  | continuation spaces ending =>
    have plain : InLine ('_' :: spaces) := by
      refine .cons (by decide) fun c listed => ?_
      rcases fits.1 c listed with rfl | rfl <;> decide
    rcases fits.2 with ⟨isBreak, _⟩ | ⟨rfl, _⟩
    · have ends : Apart (before ++ '_' :: spaces) ending :=
        (InLine.apart_left plain ending).append (List.cons_ne_nil _ _) before
      change PlaceLt before (before ++ ('_' :: spaces ++ ending))
      rw [← List.append_assoc]
      refine .inl ?_
      rw [lineOf_append_break isBreak ends, lineOf_append_inLine plain]
      exact Nat.lt_succ_self _
    · change PlaceLt before (before ++ '_' :: (spaces ++ []))
      rw [List.append_nil]
      exact .of_inLine plain (List.cons_ne_nil _ _) before
  | lineBreak text =>
    exact .of_break fits.1 apart.left
  | comment marker body => exact .of_inLine fits.2.1 filled before
  | token kind lexeme raw suffix => exact .of_inLine (.append fits.1.inLine (inLine_suffix fits)) filled before
  | fault cause text bytes => exact .of_inLine fits.2.1 filled before

/-- What a token adds in front of those of the pieces after its own. -/
structure Adds (before : List Char) (atLineStart : Bool) (piece : Piece) (token : Token) : Prop where
  line : token.span.line = lineOf before
  col : token.span.col = colOf before
  ends : token.span.len ≠ 0 → lineOf before = lineOf (before ++ piece.text) ∧
    token.span.col + token.span.len ≤ colOf (before ++ piece.text)
  notEnd : token.kind ≠ .endOfText
  newline : token.kind = .newline → atLineStart = false
  written : token.span.len ≠ 0 → token.kind ≠ .invalid → ∃ raw suffix,
    piece = .token token.kind token.lexeme.toList raw suffix ∧ token.span.len = (utf8 raw).length

theorem readPieces_cons (fits : piece.Fits after) (atLineStart : Bool) (pieces : List Piece) :
    (readPieces before atLineStart (piece :: pieces)).tokens =
        (readPieces (before ++ piece.text) atLineStart pieces).tokens ∨
      ∃ token, Adds before atLineStart piece token ∧
        (readPieces before atLineStart (piece :: pieces)).tokens =
          token :: (readPieces (before ++ piece.text) (token.kind == .newline) pieces).tokens := by
  cases piece with
  | blank c => exact .inl rfl
  | continuation spaces ending => exact .inl rfl
  | lineBreak text =>
    cases atLineStart with
    | true => exact .inl rfl
    | false =>
      exact .inr ⟨⟨.newline, "", .point _ _⟩, ⟨rfl, rfl, fun some => absurd rfl some, by simp,
        fun _ => rfl, fun some => absurd rfl some⟩, rfl⟩
  | comment marker body => exact .inl rfl
  | token kind lexeme raw suffix =>
    have plain : InLine (raw ++ suffix) := .append fits.1.inLine (inLine_suffix fits)
    have tail : (kind == .newline) = false := beq_eq_false_iff_ne.2 fits.1.kind_ne.1
    refine .inr ⟨⟨kind, String.ofList lexeme, ⟨lineOf before, colOf before, (utf8 raw).length⟩⟩,
      ⟨rfl, rfl, ?_, ?_, ?_, ?_⟩, ?_⟩
    · refine fun _ => ⟨(lineOf_append_inLine plain).symm, ?_⟩
      rw [Piece.text, colOf_append_inLine plain, utf8_append, List.length_append]
      dsimp only
      omega
    · exact fits.1.kind_ne.2.1
    · exact fun isLine => absurd isLine fits.1.kind_ne.1
    · refine fun _ _ => ⟨raw, suffix, ?_, rfl⟩
      rw [String.toList_ofList]
    · rw [tail]
      rfl
  | fault cause text bytes =>
    obtain ⟨_, plain, isWidth⟩ := fits
    refine .inr ⟨⟨.invalid, "", ⟨lineOf before, colOf before, bytes⟩⟩,
      ⟨rfl, rfl, ?_, by simp, by simp, ?_⟩, rfl⟩
    · refine fun some => ⟨(lineOf_append_inLine plain).symm, ?_⟩
      rw [Piece.text, colOf_append_inLine plain, isWidth.resolve_left some]
    · exact fun _ isOther => absurd rfl isOther

theorem readPieces_nil (before : List Char) (atLineStart : Bool) :
    (readPieces before atLineStart []).tokens =
      [⟨.endOfText, "", .point (lineOf before) (colOf before)⟩] := rfl

theorem kind_finish (cursor : Cursor) (atLineStart : Bool) :
    (run cursor atLineStart).finish.kind = .endOfText := by
  fun_induction run cursor atLineStart with
  | case1 => rfl
  | case2 cursor atLineStart here c rest remaining found tail ih =>
    cases found.item with
    | token kind lexeme bytes => exact ih
    | lineBreak =>
      cases atLineStart
      · exact ih
      · exact ih
    | comment text => exact ih
    | fault cause bytes => exact ih

theorem body_readPieces (fit : AllFit after pieces) (before : List Char) (atLineStart : Bool) :
    ∀ token ∈ (readPieces before atLineStart pieces).body, token.kind ≠ .endOfText := by
  induction pieces generalizing before atLineStart with
  | nil => exact nofun
  | cons piece pieces ih =>
    rcases readPieces_cons fit.1 atLineStart pieces with same | ⟨token, adds, more⟩
    · have same := (List.append_inj' same rfl).1
      rw [same]
      exact ih fit.2 _ _
    · have more := (List.append_inj' (more.trans (List.cons_append ..).symm) rfl).1
      rw [more]
      exact List.forall_mem_cons.2 ⟨adds.notEnd, ih fit.2 _ _⟩

theorem newlines_readPieces (fit : AllFit after pieces) (before : List Char) (atLineStart : Bool) :
    (∀ token ∈ (readPieces before atLineStart pieces).tokens.head?, token.kind = .newline →
      atLineStart = false) ∧
    (readPieces before atLineStart pieces).tokens.IsChain fun first second =>
      first.kind = .newline → second.kind ≠ .newline := by
  induction pieces generalizing before atLineStart with
  | nil =>
    rw [readPieces_nil]
    refine ⟨fun token isHead isLine => ?_, List.isChain_singleton _⟩
    obtain rfl := Option.some.inj isHead
    exact nomatch isLine
  | cons piece pieces ih =>
    rcases readPieces_cons fit.1 atLineStart pieces with same | ⟨token, adds, more⟩
    · rw [same]
      exact ih fit.2 _ _
    · rw [more]
      obtain ⟨first, chain⟩ := ih fit.2 (before ++ piece.text) (token.kind == .newline)
      refine ⟨fun token isHead isLine => ?_, ?_⟩
      · obtain rfl := Option.some.inj isHead
        exact adds.newline isLine
      · refine List.isChain_cons.2 ⟨fun next isNext isLine again => ?_, chain⟩
        have apart := first next isNext again
        rw [isLine] at apart
        exact nomatch apart

theorem places_readPieces (fit : AllFit after pieces) (apart : Apart before (textOf pieces ++ after))
    (atLineStart : Bool) :
    (∀ token ∈ (readPieces before atLineStart pieces).tokens,
      lineOf before < token.span.line ∨ lineOf before = token.span.line ∧ colOf before ≤ token.span.col) ∧
    (readPieces before atLineStart pieces).tokens.Pairwise fun first second =>
      first.span.Precedes second.span := by
  induction pieces generalizing before atLineStart with
  | nil =>
    rw [readPieces_nil]
    exact ⟨List.forall_mem_singleton.2 (.inr ⟨rfl, Nat.le_refl _⟩), List.pairwise_singleton _ _⟩
  | cons piece pieces ih =>
    have apart' : Apart before (piece.text ++ (textOf pieces ++ after)) := by
      rw [← List.append_assoc]
      exact apart
    have moves := fit.1.placeLt apart'
    have later := ih fit.2 (fit.1.apart.append fit.1.filled before)
    unfold PlaceLt at moves
    rcases readPieces_cons fit.1 atLineStart pieces with same | ⟨token, adds, more⟩
    · obtain ⟨places, ordered⟩ := later atLineStart
      rw [same]
      refine ⟨fun token listed => ?_, ordered⟩
      have place := places token listed
      omega
    · obtain ⟨places, ordered⟩ := later (token.kind == .newline)
      rw [more]
      refine ⟨List.forall_mem_cons.2 ⟨?_, fun other listed => ?_⟩,
        List.pairwise_cons.2 ⟨fun other listed => ?_, ordered⟩⟩
      · exact .inr ⟨adds.line.symm, Nat.le_of_eq adds.col.symm⟩
      · have place := places other listed
        omega
      · have place := places other listed
        have isLine := adds.line
        have isCol := adds.col
        have ends := adds.ends
        unfold Span.Precedes
        omega

theorem written_readPieces (fit : AllFit after pieces) (before : List Char) (atLineStart : Bool) :
    ∀ token ∈ (readPieces before atLineStart pieces).tokens, token.span.len ≠ 0 → token.kind ≠ .invalid →
      ∃ earlier raw suffix later,
        pieces = earlier ++ .token token.kind token.lexeme.toList raw suffix :: later ∧
        token.span = ⟨lineOf (before ++ textOf earlier), colOf (before ++ textOf earlier),
          (utf8 raw).length⟩ := by
  induction pieces generalizing before atLineStart with
  | nil =>
    rw [readPieces_nil]
    exact List.forall_mem_singleton.2 fun some => absurd rfl some
  | cons piece pieces ih =>
    have deeper (atLineStart : Bool) (token : Token)
        (listed : token ∈ (readPieces (before ++ piece.text) atLineStart pieces).tokens)
        (some : token.span.len ≠ 0) (isOther : token.kind ≠ .invalid) :
        ∃ earlier raw suffix later,
          piece :: pieces = earlier ++ .token token.kind token.lexeme.toList raw suffix :: later ∧
          token.span = ⟨lineOf (before ++ textOf earlier), colOf (before ++ textOf earlier),
            (utf8 raw).length⟩ := by
      obtain ⟨earlier, raw, suffix, later, rfl, isSpan⟩ := ih fit.2 _ atLineStart token listed some isOther
      refine ⟨piece :: earlier, raw, suffix, later, rfl, ?_⟩
      rw [isSpan, List.append_assoc]
      rfl
    rcases readPieces_cons fit.1 atLineStart pieces with same | ⟨token, adds, more⟩
    · rw [same]
      exact deeper atLineStart
    · rw [more]
      refine List.forall_mem_cons.2 ⟨fun some isOther => ?_, deeper _⟩
      obtain ⟨raw, suffix, rfl, width⟩ := adds.written some isOther
      refine ⟨[], raw, suffix, pieces, rfl, ?_⟩
      have none : before ++ textOf [] = before := List.append_nil before
      rw [none, ← adds.line, ← adds.col, ← width]

theorem spans_readPieces (fit : AllFit after pieces) (before : List Char) (atLineStart : Bool) :
    ∀ token ∈ (readPieces before atLineStart pieces).tokens, 0 < token.span.line ∧ 0 < token.span.col ∧
      token.span.line + token.span.col + token.span.len ≤ (utf8 (before ++ textOf pieces)).length + 2 := by
  induction pieces generalizing before atLineStart with
  | nil =>
    rw [readPieces_nil]
    refine List.forall_mem_singleton.2 ⟨lineOf_pos before, Nat.succ_pos _, ?_⟩
    have places := lineOf_add_colOf_le before
    rw [show before ++ textOf [] = before from List.append_nil before]
    exact places
  | cons piece pieces ih =>
    have whole : before ++ textOf (piece :: pieces) = before ++ piece.text ++ textOf pieces :=
      (List.append_assoc ..).symm
    rw [whole]
    rcases readPieces_cons fit.1 atLineStart pieces with same | ⟨token, adds, more⟩
    · rw [same]
      exact ih fit.2 _ _
    · rw [more]
      refine List.forall_mem_cons.2 ⟨⟨adds.line ▸ lineOf_pos before, ?_, ?_⟩, ih fit.2 _ _⟩
      · rw [adds.col]
        exact Nat.succ_pos _
      · have begins := lineOf_add_colOf_le before
        have ends := lineOf_add_colOf_le (before ++ piece.text)
        have line := adds.line
        have col := adds.col
        simp only [utf8_append, List.length_append] at ends ⊢
        by_cases wide : token.span.len = 0
        · omega
        · obtain ⟨sameLine, within⟩ := adds.ends wide
          omega

theorem width_readPieces (fit : AllFit after pieces) (before : List Char) (atLineStart : Bool) :
    ∀ token ∈ (readPieces before atLineStart pieces).tokens, token.kind ≠ .newline →
      token.kind ≠ .endOfText → token.kind ≠ .invalid → token.span.len ≠ 0 := by
  induction pieces generalizing before atLineStart with
  | nil =>
    rw [readPieces_nil]
    exact List.forall_mem_singleton.2 fun _ goesOn => absurd rfl goesOn
  | cons piece pieces ih =>
    have later (atLineStart : Bool) := ih fit.2 (before ++ piece.text) atLineStart
    cases piece with
    | blank c => exact later atLineStart
    | continuation spaces ending => exact later atLineStart
    | lineBreak text =>
      cases atLineStart with
      | true => exact later true
      | false => exact List.forall_mem_cons.2 ⟨fun noLine => absurd rfl noLine, later true⟩
    | comment marker body => exact later atLineStart
    | token kind lexeme raw suffix =>
      exact List.forall_mem_cons.2
        ⟨fun _ _ _ => (utf8_ne_nil fit.1.1.filled).ne', later false⟩
    | fault cause text bytes =>
      exact List.forall_mem_cons.2 ⟨fun _ _ isOther => absurd rfl isOther, later false⟩

theorem AllFit.slice {kind : TokenKind} {lexeme raw suffix : List Char} {earlier later : List Piece}
    (fit : AllFit [] (earlier ++ .token kind lexeme raw suffix :: later)) :
    ∃ line, (sourceLines (textOf (earlier ++ .token kind lexeme raw suffix :: later)))[
        lineOf (textOf earlier) - 1]? = some line ∧
      ((utf8 line).drop (colOf (textOf earlier) - 1)).take (utf8 raw).length = utf8 raw := by
  obtain ⟨spells, _⟩ := fit.middle
  have whole : textOf (earlier ++ .token kind lexeme raw suffix :: later) =
      textOf earlier ++ raw ++ (suffix ++ textOf later) := by
    rw [textOf_append, List.append_assoc, ← List.append_assoc raw]
    rfl
  rw [whole]
  exact slice_line spells.inLine spells.filled (suffix ++ textOf later)

theorem faults_readPieces (before : List Char) (atLineStart : Bool) {cause : LexicalCause}
    {text : List Char} {bytes : Nat} (listed : .fault cause text bytes ∈ pieces) :
    (readPieces before atLineStart pieces).faults ≠ [] := by
  induction pieces generalizing before atLineStart with
  | nil => exact nomatch listed
  | cons piece pieces ih =>
    rcases List.mem_cons.1 listed with rfl | among
    · exact List.cons_ne_nil _ _
    · have later := ih (before ++ piece.text)
      rw [readPieces]
      split
      · exact later _ among
      · rename_i item _
        unfold Item.cons
        split
        · exact later _ among
        · split <;> exact later _ among
        · exact later _ among
        · exact List.cons_ne_nil _ _

end Tokens

end Lexer

open Text Lexer

/-- What is read keeps all of a text that is made up of pieces. -/
structure Lexed.Keeps (lexed : Lexed) (text : List Char) (pieces : List Piece) : Prop where
  whole : text = textOf pieces
  fit : AllFit [] pieces
  reads : lexed = readPieces [] true pieces
  /-- Without faults every character belongs to a token, to a comment, or to what means nothing. -/
  known : lexed.faults = [] → ∀ cause raw bytes, .fault cause raw bytes ∉ pieces
  ends : lexed.finish.kind = .endOfText
  goesOn : ∀ token ∈ lexed.body, token.kind ≠ .endOfText
  opens : ∀ token ∈ lexed.tokens.head?, token.kind ≠ .newline
  lines : lexed.tokens.IsChain fun first second => first.kind = .newline → second.kind ≠ .newline
  ordered : lexed.tokens.Pairwise fun first second => first.span.Precedes second.span
  /-- A token that has a width stands in its line with the text that it was read from. -/
  written : ∀ token ∈ lexed.tokens, token.span.len ≠ 0 → token.kind ≠ .invalid →
    ∃ earlier raw suffix later line,
      pieces = earlier ++ .token token.kind token.lexeme.toList raw suffix :: later ∧
      token.span = ⟨lineOf (textOf earlier), colOf (textOf earlier), (utf8 raw).length⟩ ∧
      (sourceLines text)[token.span.line - 1]? = some line ∧
      ((utf8 line).drop (token.span.col - 1)).take token.span.len = utf8 raw

theorem lex_reads (text : String) : ∃ pieces, text.toList = textOf pieces ∧ AllFit [] pieces ∧
    lex text = readPieces [] true pieces :=
  run_reads text.toList _ true [] (.start text)

/-- Nothing of a text is lost when it is read. -/
theorem lex_keeps (text : String) : ∃ pieces, (lex text).Keeps text.toList pieces := by
  obtain ⟨pieces, whole, fit, reads⟩ := lex_reads text
  have begins : Apart [] (textOf pieces ++ []) := nofun
  have newlines := newlines_readPieces fit [] true
  have places := places_readPieces fit begins true
  have written := written_readPieces fit [] true
  have body := body_readPieces fit [] true
  have finish : (lex text).finish.kind = .endOfText := kind_finish _ _
  rw [← reads] at newlines places written body
  refine ⟨pieces, whole, fit, reads, ?_, finish, body, ?_, newlines.2, places.2, ?_⟩
  · intro clean cause raw bytes listed
    rw [reads] at clean
    exact faults_readPieces [] true listed clean
  · intro token isHead isLine
    exact nomatch newlines.1 token isHead isLine
  · intro token listed some isOther
    obtain ⟨earlier, raw, suffix, later, rfl, isSpan⟩ := written token listed some isOther
    obtain ⟨line, isLine, slice⟩ := fit.slice
    refine ⟨earlier, raw, suffix, later, line, rfl, isSpan, ?_, ?_⟩
    · rw [isSpan, whole]
      exact isLine
    · rw [isSpan]
      exact slice

theorem lex_spans_fit {text : String} (small : byteWidth text.toList + 2 ≤ 2 ^ 32) {token : Token}
    (listed : token ∈ (lex text).tokens) :
    token.span.line < 2 ^ 32 ∧ token.span.col < 2 ^ 32 ∧ token.span.len < 2 ^ 32 := by
  obtain ⟨pieces, whole, fit, reads⟩ := lex_reads text
  rw [reads] at listed
  obtain ⟨line, col, bound⟩ := spans_readPieces fit [] true token listed
  rw [byteWidth_eq, whole] at small
  rw [List.nil_append] at bound
  omega

/-- A token stands where `raw` is in a text. -/
structure Token.Covers (token : Token) (text raw : List Char) : Prop where
  width : token.span.len = (utf8 raw).length
  slice : ∃ line, (sourceLines text)[token.span.line - 1]? = some line ∧
    ((utf8 line).drop (token.span.col - 1)).take token.span.len = utf8 raw

theorem lex_covers {text : String} {token : Token} (listed : token ∈ (lex text).tokens)
    (noLine : token.kind ≠ .newline) (goesOn : token.kind ≠ .endOfText) (isOther : token.kind ≠ .invalid) :
    ∃ raw, Spells token.kind token.lexeme.toList raw ∧ token.Covers text.toList raw := by
  obtain ⟨pieces, whole, fit, reads⟩ := lex_reads text
  rw [reads] at listed
  have some := width_readPieces fit [] true token listed noLine goesOn isOther
  obtain ⟨earlier, raw, suffix, later, rfl, isSpan⟩ :=
    written_readPieces fit [] true token listed some isOther
  obtain ⟨line, isLine, slice⟩ := fit.slice
  refine ⟨raw, fit.middle.1, ?_, line, ?_, ?_⟩
  · rw [isSpan]
  · rw [isSpan, whole]
    exact isLine
  · rw [isSpan]
    exact slice

end ScriptMigration
