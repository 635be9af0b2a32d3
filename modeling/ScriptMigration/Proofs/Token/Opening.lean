import Mathlib
import ScriptMigration.Proofs.Token.Lossless

/-! How the lexer goes through a text: blanks and one item at a time, and never back to an earlier
line. `Lexed.leading` are the comments before the code of a text. -/
namespace ScriptMigration

namespace Text

variable {first second text after : List Char} {test other : Char → Bool}

theorem head?_all_mono (weaker : ∀ c, test c → other c) (here : text.head?.all test) :
    text.head?.all other := by
  cases text with
  | nil => rfl
  | cons c text => exact weaker c here

theorem head?_all_append (here : first.head?.all test) (there : second.head?.all test) :
    (first ++ second).head?.all test := by
  cases first with
  | nil => exact there
  | cons c first => exact here

theorem head?_all_of_forall (passes : ∀ c ∈ text, test c) : text.head?.all test := by
  cases text with
  | nil => rfl
  | cons c text => exact passes c List.mem_cons_self

theorem head?_any_append (here : first.head?.any test) : (first ++ second).head?.any test := by
  cases first with
  | nil => exact nomatch here
  | cons c first => exact here

theorem takeWhile_append_of_stops (stops : after.head?.all (!test ·)) (text : List Char) :
    (text ++ after).takeWhile test = text.takeWhile test := by
  induction text with
  | nil =>
    cases after with
    | nil => rfl
    | cons c after => exact List.takeWhile_cons_of_neg (by simpa using stops)
  | cons c text ih => rw [List.cons_append, List.takeWhile_cons, List.takeWhile_cons, ih]

theorem takeWhile_eq_of_stops (passes : ∀ c ∈ text, test c) (stops : after.head?.all (!test ·)) :
    (text ++ after).takeWhile test = text := by
  rw [takeWhile_append_of_stops stops, List.takeWhile_eq_self_iff.2 passes]

end Text

namespace Cursor

theorem line_le_advance (cursor : Cursor) : cursor.line ≤ cursor.advance.line := by
  unfold advance
  split
  · exact Nat.le_refl _
  · split
    · exact Nat.le_succ _
    · split
      · split
        · exact Nat.le_refl _
        · exact Nat.le_succ _
      · exact Nat.le_refl _

theorem line_le_skip (cursor : Cursor) (count : Nat) : cursor.line ≤ (cursor.skip count).line := by
  induction count generalizing cursor with
  | zero => exact Nat.le_refl _
  | succ count ih => exact Nat.le_trans cursor.line_le_advance (ih _)

theorem rest_skip_append {cursor : Cursor} {piece after : List Char}
    (opens : cursor.rest = piece ++ after) : (cursor.skip piece.length).rest = after := by
  rw [rest_skip, opens, List.drop_left]

theorem line_advance {cursor : Cursor} {c : Char} {after : List Char} (plain : c ≠ '\n' ∧ c ≠ '\r')
    (opens : cursor.rest = c :: after) : cursor.advance.line = cursor.line := by
  unfold advance
  rw [opens]
  simp [plain]

theorem line_skip {cursor : Cursor} {piece after : List Char} (inLine : Text.InLine piece)
    (opens : cursor.rest = piece ++ after) : (cursor.skip piece.length).line = cursor.line := by
  induction piece generalizing cursor with
  | nil => rfl
  | cons c piece ih =>
    have line := line_advance (inLine c List.mem_cons_self) opens
    have rest : cursor.advance.rest = piece ++ after := by
      rw [rest_advance, opens]
      rfl
    exact (ih (fun d listed => inLine d (List.mem_cons_of_mem c listed)) rest).trans line

theorem line_skip_break {cursor : Cursor} {piece after : List Char} (isBreak : Text.IsBreak piece)
    (apart : Text.Apart piece after) (opens : cursor.rest = piece ++ after) :
    (cursor.skip piece.length).line = cursor.line + 1 := by
  rcases isBreak with rfl | rfl | rfl
  · simp [skip, advance, opens]
  · have other : after.head? ≠ some '\n' := apart rfl
    simp [skip, advance, opens, other]
  · simp [skip, advance, opens]

end Cursor

namespace Lexer

open Text

variable {cursor : Cursor} {c : Char} {text rest : List Char}

theorem blankWidth_eq (text : List Char) :
    let bom := if text.head? == some '\uFEFF' then 1 else 0
    let width := bom + ((text.drop bom).takeWhile isSpace).length
    blankWidth text = (continuationWidth? (text.drop width)).elim width fun more =>
      width + more + blankWidth (text.drop (width + more)) := by
  intro bom width
  rw [blankWidth]
  dsimp only
  split
  · rename_i ends
    change text.drop width = [] at ends
    rw [ends]
    rfl
  · rename_i c after remaining
    change text.drop width = c :: after at remaining
    rw [remaining]
    split
    · rename_i none
      rw [none]
      rfl
    · rename_i more found
      have positive := (skips_continuation found).2
      rw [found, Option.elim_some, show width + more = width + (more - 1) + 1 by omega]

theorem blankWidth_item (space : isSpace c = false) (other : c ≠ '_' ∧ c ≠ '\uFEFF')
    (rest : List Char) : blankWidth (c :: rest) = 0 := by
  have none : continuationWidth? (c :: rest) = none := by
    unfold continuationWidth?
    split
    · rename_i same
      exact absurd (List.cons.inj same).1 other.1
    · rfl
  rw [blankWidth_eq]
  simp [other.2, space, none]

theorem blankWidth_space (space : isSpace c) (unmarked : text.head? ≠ some '\uFEFF') :
    blankWidth (c :: text) = blankWidth text + 1 := by
  have other : c ≠ '\uFEFF' := by
    rintro rfl
    exact nomatch space
  simp only [blankWidth_eq (c :: text), blankWidth_eq text, List.head?_cons, Option.some_beq_some,
    beq_eq_false_iff_ne.2 other, beq_eq_false_iff_ne.2 unmarked, Bool.false_eq_true, if_false,
    List.drop_zero, Nat.zero_add, List.takeWhile_cons_of_pos space, List.length_cons,
    List.drop_succ_cons]
  cases continuationWidth? (text.drop (text.takeWhile isSpace).length) with
  | none => rfl
  | some more =>
    have further : (text.takeWhile isSpace).length + 1 + more =
        (text.takeWhile isSpace).length + more + 1 := by omega
    rw [Option.elim_some, Option.elim_some, further, List.drop_succ_cons]
    omega

theorem run_nil (opens : cursor.rest = []) (atLineStart : Bool) :
    (run cursor atLineStart).body = [] ∧ (run cursor atLineStart).comments = [] := by
  have done : (cursor.skip (blankWidth cursor.rest)).rest = [] := by
    rw [Cursor.rest_skip, opens, List.drop_nil]
  rw [run]
  dsimp only
  split
  · exact ⟨rfl, rfl⟩
  · rename_i remaining
    cases done.symm.trans remaining

theorem advance_space (space : isSpace c) (opens : cursor.rest = c :: rest) :
    cursor.advance.rest = rest ∧ cursor.advance.line = cursor.line := by
  refine ⟨by rw [Cursor.rest_advance, opens, List.tail_cons], Cursor.line_advance ?_ opens⟩
  rcases isSpace_iff.1 space with rfl | rfl <;> decide

theorem run_space (space : isSpace c) (unmarked : rest.head? ≠ some '\uFEFF')
    (opens : cursor.rest = c :: rest) (atLineStart : Bool) :
    run cursor atLineStart = run cursor.advance atLineStart := by
  obtain ⟨next, _⟩ := advance_space space opens
  have here : cursor.skip (blankWidth cursor.rest) =
      cursor.advance.skip (blankWidth cursor.advance.rest) := by
    rw [opens, next, blankWidth_space space unmarked]
    rfl
  rw [run, run, here]

theorem run_item (space : isSpace c = false) (other : c ≠ '_' ∧ c ≠ '\uFEFF')
    (opens : cursor.rest = c :: rest) (atLineStart : Bool) :
    run cursor atLineStart = (scan c rest).item.cons cursor.line cursor.col atLineStart
      (run (cursor.skip ((scan c rest).more + 1)) ((scan c rest).item.endsLine atLineStart)) := by
  have here : cursor.skip (blankWidth cursor.rest) = cursor := by
    rw [opens, blankWidth_item space other]
    rfl
  rw [run]
  dsimp only
  split
  · rename_i remaining
    rw [here, opens] at remaining
    cases remaining
  · rename_i d rest' remaining
    rw [here, opens] at remaining
    obtain ⟨rfl, rfl⟩ := List.cons.inj remaining
    rw [here]

theorem run_spaces {spaces : List Char} (blank : ∀ c ∈ spaces, isSpace c)
    (unmarked : rest.head? ≠ some '\uFEFF') (opens : cursor.rest = spaces ++ rest)
    (atLineStart : Bool) :
    run cursor atLineStart = run (cursor.skip spaces.length) atLineStart := by
  induction spaces generalizing cursor with
  | nil => rfl
  | cons c spaces ih =>
    have later := fun d listed => blank d (List.mem_cons_of_mem c listed)
    obtain ⟨next, _⟩ := advance_space (blank c List.mem_cons_self) opens
    have unmarked' : (spaces ++ rest).head? ≠ some '\uFEFF' := by
      cases spaces with
      | nil => exact unmarked
      | cons d spaces =>
        rintro ⟨⟩
        exact nomatch later _ List.mem_cons_self
    rw [run_space (blank c List.mem_cons_self) unmarked' opens, ih later next]
    rfl

theorem run_token {kind : TokenKind} {word after : List Char} (space : isSpace c = false)
    (other : c ≠ '_' ∧ c ≠ '\uFEFF') (opens : cursor.rest = c :: (word ++ after))
    (scans : scan c (word ++ after) = .read kind (c :: word) (c :: word) 0) (atLineStart : Bool) :
    ∃ token, token.kind = kind ∧ token.lexeme = String.ofList (c :: word) ∧
      (run cursor atLineStart).body =
        token :: (run (cursor.skip (c :: word).length) false).body ∧
      (run cursor atLineStart).comments = (run (cursor.skip (c :: word).length) false).comments := by
  rw [run_item space other opens, scans]
  exact ⟨⟨kind, String.ofList (c :: word), ⟨cursor.line, cursor.col, byteWidth (c :: word)⟩⟩,
    rfl, rfl, rfl, rfl⟩

theorem run_comment {marker body after : List Char} (space : isSpace c = false)
    (other : c ≠ '_' ∧ c ≠ '\uFEFF') (opens : cursor.rest = c :: (marker ++ (body ++ after)))
    (scans : scan c (marker ++ (body ++ after)) = scanLineComment (c :: marker) (body ++ after))
    (within : Text.InLine body) (ends : after.head?.all isLineBreak) (atLineStart : Bool) :
    (run cursor atLineStart).body =
        (run (cursor.skip (c :: marker ++ body).length) atLineStart).body ∧
      (run cursor atLineStart).comments = ⟨cursor.line, String.ofList (Text.trimChars body)⟩ ::
        (run (cursor.skip (c :: marker ++ body).length) atLineStart).comments := by
  have taken : (body ++ after).takeWhile (!isLineBreak ·) = body :=
    Text.takeWhile_eq_of_stops (fun d listed => by simp [isLineBreak_false.2 (within d listed)])
      (Text.head?_all_mono (fun d breaks => by simpa using breaks) ends)
  have width : (c :: marker).length - 1 + body.length + 1 = (c :: marker ++ body).length := by
    simp
  rw [run_item space other opens, scans]
  unfold scanLineComment
  dsimp only
  rw [taken, width]
  exact ⟨rfl, rfl⟩

theorem run_lines (cursor : Cursor) (atLineStart : Bool) :
    (∀ token ∈ (run cursor atLineStart).body, cursor.line ≤ token.span.line) ∧
      ∀ comment ∈ (run cursor atLineStart).comments, cursor.line ≤ comment.line := by
  fun_induction run cursor atLineStart with
  | case1 => exact ⟨List.forall_mem_nil _, List.forall_mem_nil _⟩
  | case2 cursor atLineStart here c rest remaining found tail ih =>
    have reached : cursor.line ≤ here.line := cursor.line_le_skip _
    have passed : cursor.line ≤ (here.skip (found.more + 1)).line :=
      Nat.le_trans reached (here.line_le_skip _)
    have body : ∀ token ∈ tail.body, cursor.line ≤ token.span.line :=
      fun token listed => Nat.le_trans passed (ih.1 token listed)
    have comments : ∀ comment ∈ tail.comments, cursor.line ≤ comment.line :=
      fun comment listed => Nat.le_trans passed (ih.2 comment listed)
    cases found.item with
    | token kind lexeme bytes => exact ⟨List.forall_mem_cons.2 ⟨reached, body⟩, comments⟩
    | lineBreak =>
      cases atLineStart with
      | true => exact ⟨body, comments⟩
      | false => exact ⟨List.forall_mem_cons.2 ⟨reached, body⟩, comments⟩
    | comment text => exact ⟨body, List.forall_mem_cons.2 ⟨reached, comments⟩⟩
    | fault cause bytes => exact ⟨List.forall_mem_cons.2 ⟨reached, body⟩, comments⟩

def Scan.EndsLine (found : Scan) (text : List Char) : Prop :=
  ∀ remark, found.item = .comment remark → (text.drop (found.more + 1)).head?.all isLineBreak

theorem scanLineComment_endsLine {marker : List Char} (filled : marker ≠ []) (rest : List Char) :
    (scanLineComment marker rest).EndsLine (marker ++ rest) := by
  intro remark _
  have positive := List.length_pos_of_ne_nil filled
  have width : (scanLineComment marker rest).more + 1 =
      marker.length + (rest.takeWhile (!isLineBreak ·)).length := by
    unfold scanLineComment
    dsimp only
    omega
  have later : rest.drop (rest.takeWhile (!isLineBreak ·)).length =
      rest.dropWhile (!isLineBreak ·) := by
    obtain ⟨after, whole, dropped, -⟩ := takeWhile_spec (!isLineBreak ·) rest
    have parts : rest = rest.takeWhile (!isLineBreak ·) ++ rest.dropWhile (!isLineBreak ·) :=
      List.takeWhile_append_dropWhile.symm
    rw [dropped]
    exact List.append_cancel_left (whole.symm.trans parts)
  rw [width, ← List.drop_drop, List.drop_left, later]
  have stops := List.head?_dropWhile_not (!isLineBreak ·) rest
  cases first : (rest.dropWhile (!isLineBreak ·)).head? with
  | none => rfl
  | some c => simpa [first] using stops

theorem scanWord_endsLine (starts : isNameStart c) (rest : List Char) :
    (scanWord (c :: rest)).EndsLine (c :: rest) := by
  obtain ⟨after, whole, dropped, -⟩ := takeWhile_spec isNameChar (c :: rest)
  unfold scanWord
  dsimp only
  rw [dropped]
  split
  · have filled : (c :: rest).takeWhile isNameChar ≠ [] := by
      simp [isNameChar_of_isNameStart starts]
    have ends := scanLineComment_endsLine filled after
    rwa [← whole] at ends
  · split <;> exact nofun

theorem scan_endsLine (c : Char) (rest : List Char) : (scan c rest).EndsLine (c :: rest) := by
  unfold scan
  split
  · exact nofun
  split
  · exact scanLineComment_endsLine (List.cons_ne_nil c []) rest
  split
  · unfold scanString
    dsimp only
    split <;> exact nofun
  iterate 2
    split
    · unfold scanEnclosed
      dsimp only
      split <;> exact nofun
  split
  · exact nofun
  split
  · rename_i starts
    exact scanWord_endsLine starts rest
  split
  · unfold scanRadix
    dsimp only
    generalize List.takeWhile _ (rest.drop _) = digits
    split <;> exact nofun
  · unfold scanMark
    split <;> exact nofun

theorem run_lines_of_break (ends : cursor.rest.head?.all isLineBreak) (atLineStart : Bool) :
    ∀ comment ∈ (run cursor atLineStart).comments, cursor.line < comment.line := by
  intro comment listed
  cases opens : cursor.rest with
  | nil => simp [(run_nil opens atLineStart).2] at listed
  | cons c rest =>
    have breaks : isLineBreak c := by simpa [opens] using ends
    have isOne : c = '\n' ∨ c = '\r' := by simpa [isLineBreak] using breaks
    have found : scan c rest =
        ⟨.lineBreak, if c == '\r' && rest.head? == some '\n' then 1 else 0⟩ := by
      rw [scan, if_pos breaks]
    have takes : Scan.Takes _ (c :: rest) := scanBreak_takes breaks
    obtain ⟨piece, after, whole, width, fits, isBreak⟩ := takes
    have next : (cursor.skip ((scan c rest).more + 1)).line = cursor.line + 1 := by
      rw [found, ← width]
      cases piece with
      | lineBreak text => exact Cursor.line_skip_break fits.1 fits.2 (opens.trans whole)
      | _ => cases isBreak
    have later : comment ∈ (run (cursor.skip ((scan c rest).more + 1)) true).comments := by
      rw [run_item (by rcases isOne with rfl | rfl <;> rfl)
        (by rcases isOne with rfl | rfl <;> decide) opens, found] at listed
      rw [found]
      cases atLineStart <;> exact listed
    have reached := (run_lines _ _).2 comment later
    omega

theorem run_comments (cursor : Cursor) (atLineStart : Bool) :
    (run cursor atLineStart).comments.Pairwise (·.line < ·.line) := by
  fun_induction run cursor atLineStart with
  | case1 => exact .nil
  | case2 cursor atLineStart here c rest remaining found tail ih =>
    cases isItem : found.item with
    | token kind lexeme bytes => exact ih
    | lineBreak =>
      cases atLineStart with
      | true => exact ih
      | false => exact ih
    | fault cause bytes => exact ih
    | comment text =>
      refine List.pairwise_cons.2 ⟨fun other listed => ?_, ih⟩
      have ends : (here.skip (found.more + 1)).rest.head?.all isLineBreak := by
        rw [Cursor.rest_skip, remaining]
        exact scan_endsLine c rest text isItem
      exact Nat.lt_of_le_of_lt (here.line_le_skip _) (run_lines_of_break ends _ other listed)

end Lexer

section Words

variable {c : Char} {word rest : List Char} {spelling : String}

theorem isAlpha_of_toLower (lower : c.toLower.isAlpha) : c.isAlpha := by
  unfold Char.toLower at lower
  split at lower
  · rename_i capital
    have upper : c.isUpper := by
      unfold Char.isUpper
      exact decide_eq_true capital
    rw [Char.isAlpha, upper]
    rfl
  · exact lower

theorem sameName_toList (left right : String) :
    sameName left right = (left.toList.map Char.toLower == right.toList.map Char.toLower) := by
  rw [Bool.eq_iff_iff, sameName, beq_iff_eq, beq_iff_eq]
  simp [FoldedName.of, ← String.toList_inj, String.toList_map]

theorem folded_of_sameName (same : sameName (String.ofList word) spelling) :
    word.map Char.toLower = spelling.toList.map Char.toLower := by
  rw [sameName_toList, String.toList_ofList] at same
  exact eq_of_beq same

theorem isAlpha_of_sameName (same : sameName (String.ofList word) spelling)
    (letters : spelling.toList.all (·.toLower.isAlpha)) : ∀ c ∈ word, c.isAlpha := by
  intro c listed
  have among : c.toLower ∈ spelling.toList.map Char.toLower :=
    folded_of_sameName same ▸ List.mem_map_of_mem listed
  obtain ⟨d, inside, lower⟩ := List.mem_map.1 among
  exact isAlpha_of_toLower (lower ▸ List.all_eq_true.1 letters d inside)

theorem filled_of_sameName (same : sameName (String.ofList word) spelling)
    (filled : spelling.toList ≠ []) : word ≠ [] := by
  rintro rfl
  exact filled (List.map_eq_nil_iff.1 (folded_of_sameName same).symm)

namespace Lexer

theorem isNameChar_of_isBlank (blank : Text.isBlank c) : isNameChar c = false := by
  refine Bool.eq_false_iff.2 fun isName => ?_
  simp only [isNameChar, Char.isAlphanum, Char.isAlpha, Char.isUpper, Char.isLower, Char.isDigit,
    Bool.or_eq_true, decide_eq_true_eq, beq_iff_eq, UInt32.le_iff_toNat_le] at isName
  simp only [Text.isBlank, Bool.or_eq_true, Bool.and_eq_true, decide_eq_true_eq, beq_iff_eq] at blank
  have same : c.toNat = c.val.toNat := rfl
  rcases isName with ((upper | lower) | digit) | rfl
  · simp at upper
    omega
  · simp at lower
    omega
  · simp at digit
    omega
  · revert blank
    decide

theorem scan_word (starts : isNameStart c) (rest : List Char) : scan c rest = scanWord (c :: rest) := by
  have other {d : Char} (no : isNameStart d = false) : (c == d) = false :=
    beq_eq_false_iff_ne.2 fun same => by
      rw [same, no] at starts
      exact nomatch starts
  have digit : c.isDigit = false := by
    refine Bool.eq_false_iff.2 fun isDigit => ?_
    simp only [isNameStart, Char.isAlpha, Char.isUpper, Char.isLower, Char.isDigit, Bool.or_eq_true,
      Bool.and_eq_true, decide_eq_true_eq, UInt32.le_iff_toNat_le] at starts isDigit
    simp at starts isDigit
    omega
  unfold scan isLineBreak
  simp only [other (d := '\n') rfl, other (d := '\r') rfl, other (d := '\'') rfl, other (d := '"') rfl,
    other (d := '#') rfl, other (d := '[') rfl, other (d := '.') rfl, digit, starts, Bool.or_self,
    Bool.false_and, Bool.false_eq_true, if_false, if_true]

theorem takeWhile_word (letters : ∀ c ∈ word, c.isAlpha) (stops : rest.head?.all (!isNameChar ·)) :
    (word ++ rest).takeWhile isNameChar = word :=
  Text.takeWhile_eq_of_stops (fun c listed => isNameChar_of_isNameStart (letters c listed)) stops

theorem scanWord_append (letters : ∀ c ∈ word, c.isAlpha) (stops : rest.head?.all (!isNameChar ·)) :
    scanWord (word ++ rest) =
      if sameName (String.ofList word) "rem" &&
          !rest.head?.any fun c => c == '.' || c == '(' || c == '=' then
        scanLineComment word rest
      else
        (Keyword.find? (String.ofList word)).elim (.read .identifier word word (suffixWidth rest))
          fun found => .read (.keyword found) word word 0 := by
  unfold scanWord
  dsimp only
  rw [takeWhile_word letters stops, List.drop_left]
  cases Keyword.find? (String.ofList word) <;> rfl

theorem scanWord_remark (isRem : sameName (String.ofList word) "rem")
    (stops : rest.head?.all fun c => !isNameChar c && !(c == '.' || c == '(' || c == '=')) :
    scanWord (word ++ rest) = scanLineComment word rest := by
  have ends : rest.head?.all (!isNameChar ·) :=
    Text.head?_all_mono (fun _ both => (Bool.and_eq_true_iff.1 both).1) stops
  have plain : (rest.head?.any fun c => c == '.' || c == '(' || c == '=') = false := by
    cases rest with
    | nil => rfl
    | cons c rest => simpa using (Bool.and_eq_true_iff.1 stops).2
  rw [scanWord_append (isAlpha_of_sameName isRem (by decide)) ends, isRem, plain]
  rfl

theorem word_congr (same : sameName (String.ofList word) spelling) :
    sameName (String.ofList word) "rem" = sameName spelling "rem" ∧
      Keyword.find? (String.ofList word) = Keyword.find? spelling := by
  unfold Keyword.find? sameName
  rw [eq_of_beq same]
  exact ⟨rfl, rfl⟩

theorem scanWord_option (isOption : sameName (String.ofList word) "option")
    (stops : rest.head?.all (!isNameChar ·)) :
    scanWord (word ++ rest) = .read (.keyword .kwOption) word word 0 := by
  have noRem : sameName "option" "rem" = false := by
    rw [sameName_toList]
    decide
  have reserved : Keyword.find? "option" = some .kwOption := by
    simp only [Keyword.find?, sameName_toList]
    decide +kernel
  rw [scanWord_append (isAlpha_of_sameName isOption (by decide)) stops, (word_congr isOption).1,
    (word_congr isOption).2, noRem, reserved]
  rfl

theorem scanWord_explicit (isExplicit : sameName (String.ofList word) "explicit")
    (stops : rest.head?.all fun c => !isNameChar c && !isTypeSuffix c) :
    scanWord (word ++ rest) = .read .identifier word word 0 := by
  have noRem : sameName "explicit" "rem" = false := by
    rw [sameName_toList]
    decide
  have free : Keyword.find? "explicit" = none := by
    simp only [Keyword.find?, sameName_toList]
    decide +kernel
  have ends : rest.head?.all (!isNameChar ·) :=
    Text.head?_all_mono (fun _ both => (Bool.and_eq_true_iff.1 both).1) stops
  have unmarked : suffixWidth rest = 0 := by
    cases rest with
    | nil => rfl
    | cons c rest =>
      unfold suffixWidth
      exact if_pos (Bool.and_eq_true_iff.1 stops).2
  rw [scanWord_append (isAlpha_of_sameName isExplicit (by decide)) ends, (word_congr isExplicit).1,
    (word_congr isExplicit).2, noRem, free, unmarked]
  rfl

theorem scan_code (rest : List Char) (solid : Text.isBlank c = false) (quote : c ≠ '\'')
    (noOption : sameName (String.ofList ((c :: rest).takeWhile isNameChar)) "option" = false)
    (noRemark : sameName (String.ofList ((c :: rest).takeWhile isNameChar)) "rem" →
      ((c :: rest).drop ((c :: rest).takeWhile isNameChar).length).head?.any fun c =>
        c == '.' || c == '(' || c == '=') :
    (∃ kind lexeme bytes, (scan c rest).item = .token kind lexeme bytes ∧ kind ≠ .newline ∧
      kind ≠ .keyword .kwOption) ∨ ∃ cause bytes, (scan c rest).item = .fault cause bytes := by
  by_cases starts : isNameStart c
  · refine .inl ?_
    have noComment : (sameName (String.ofList ((c :: rest).takeWhile isNameChar)) "rem" &&
        !((c :: rest).drop ((c :: rest).takeWhile isNameChar).length).head?.any fun c =>
          c == '.' || c == '(' || c == '=') = false := by
      cases isRem : sameName (String.ofList ((c :: rest).takeWhile isNameChar)) "rem" with
      | false => rfl
      | true => simpa using noRemark isRem
    rw [scan_word starts, scanWord, noComment, if_neg Bool.false_ne_true]
    split
    · rename_i found reserved
      refine ⟨_, _, _, rfl, nofun, ?_⟩
      rintro ⟨⟩
      rw [Keyword.find?] at reserved
      have same := List.find?_some reserved
      change sameName "Option" _ at same
      have folds : "Option".toList.map Char.toLower = "option".toList.map Char.toLower := by decide
      rw [sameName_toList] at same noOption
      rw [← eq_of_beq same, folds, beq_self_eq_true] at noOption
      exact nomatch noOption
    · exact ⟨_, _, _, rfl, nofun, nofun⟩
  · obtain ⟨piece, after, whole, _, fits, reads⟩ := scan_takes c rest
    have first {d : Char} {text : List Char} (isText : piece.text = d :: text) : c = d :=
      (List.cons.inj (whole.trans (congrArg (· ++ after) isText))).1
    cases piece with
    | token kind lexeme raw suffix =>
      refine .inl ⟨_, _, _, (Option.some.inj reads).symm, fits.1.kind_ne.1, ?_⟩
      rintro rfl
      cases fits.1 with
      | word begins => exact starts (first rfl ▸ begins)
    | fault cause text bytes => exact .inr ⟨_, _, (Option.some.inj reads).symm⟩
    | lineBreak text =>
      have blank : Text.isBlank c := by
        rcases fits.1 with rfl | rfl | rfl <;> rw [first rfl] <;> rfl
      exact nomatch blank.symm.trans solid
    | comment marker body =>
      rcases fits.1 with rfl | isRem
      · exact absurd (first rfl) quote
      · obtain ⟨d, word, rfl⟩ := List.exists_cons_of_ne_nil fits.2.2
        have letters := isAlpha_of_sameName isRem (by decide)
        exact absurd (letters d List.mem_cons_self) (first rfl ▸ starts)
    | blank | continuation => exact nomatch reads

end Lexer

end Words

def Token.firstCode? : List Token → Option Token
  | [] => none
  | [last] => if last.kind = .newline then none else some last
  | first :: second :: rest =>
    if first.kind = .newline then firstCode? (second :: rest)
    else if first.kind = .keyword .kwOption ∧ second.isWord "explicit" then firstCode? rest
    else some first

namespace Token

variable {first second : Token} {rest tokens : List Token}

theorem firstCode?_newline (ends : first.kind = .newline) : firstCode? (first :: rest) = firstCode? rest := by
  cases rest with
  | nil => exact if_pos ends
  | cons second rest => exact if_pos ends

theorem firstCode?_explicit (isOption : first.kind = .keyword .kwOption)
    (isExplicit : second.isWord "explicit") :
    firstCode? (first :: second :: rest) = firstCode? rest := by
  rw [firstCode?, if_neg (by rw [isOption]; exact nofun), if_pos ⟨isOption, isExplicit⟩]

theorem firstCode?_code (ends : first.kind ≠ .newline) (isOption : first.kind ≠ .keyword .kwOption) :
    firstCode? (first :: rest) = some first := by
  cases rest with
  | nil => exact if_neg ends
  | cons second rest => rw [firstCode?, if_neg ends, if_neg fun both => isOption both.1]

theorem mem_of_firstCode? (found : firstCode? tokens = some first) : first ∈ tokens := by
  fun_induction firstCode? tokens with
  | case1 => exact nomatch found
  | case2 => exact nomatch found
  | case3 last => exact List.mem_singleton.2 (Option.some.inj found).symm
  | case4 other second rest ends ih => exact List.mem_cons_of_mem _ (ih found)
  | case5 other second rest ends explicit ih =>
    exact List.mem_cons_of_mem _ (List.mem_cons_of_mem _ (ih found))
  | case6 other second rest => exact Option.some.inj found ▸ List.mem_cons_self

end Token

theorem Lexer.run_break {cursor : Cursor} {rest ending : List Char}
    (isEnding : ending = ['\n'] ∨ ending = ['\r', '\n']) (opens : cursor.rest = ending ++ rest)
    (atLineStart : Bool) :
    (cursor.skip ending.length).rest = rest ∧ (cursor.skip ending.length).line = cursor.line + 1 ∧
      Token.firstCode? (run cursor atLineStart).body =
        Token.firstCode? (run (cursor.skip ending.length) true).body ∧
      (run cursor atLineStart).comments = (run (cursor.skip ending.length) true).comments := by
  have isBreak : Text.IsBreak ending := isEnding.imp_right .inr
  have apart : Text.Apart ending rest := by
    rcases isEnding with rfl | rfl <;> exact nofun
  refine ⟨Cursor.rest_skip_append opens, Cursor.line_skip_break isBreak apart opens, ?_⟩
  rcases isEnding with rfl | rfl
  all_goals
    rw [run_item rfl (by decide) opens]
    cases atLineStart with
    | true => exact ⟨rfl, rfl⟩
    | false => exact ⟨Token.firstCode?_newline rfl, rfl⟩

/-- The comments before the first token that is not part of `Option Explicit`. A comment ends its line,
so it stands before a token exactly if its line does. -/
def Lexed.leading (lexed : Lexed) : List Comment :=
  lexed.comments.filter fun comment =>
    (Token.firstCode? lexed.body).all (comment.line < ·.span.line)

theorem Lexed.leading_congr {first second : Lexed}
    (code : Token.firstCode? first.body = Token.firstCode? second.body)
    (comments : first.comments = second.comments) : first.leading = second.leading := by
  rw [leading, leading, code, comments]

theorem Lexed.leading_append {first second : Lexed} {comments : List Comment}
    (code : Token.firstCode? first.body = Token.firstCode? second.body)
    (added : first.comments = comments ++ second.comments)
    (before : ∀ comment ∈ comments, ∀ token, Token.firstCode? second.body = some token →
      comment.line < token.span.line) : first.leading = comments ++ second.leading := by
  have kept : comments.filter (fun comment =>
      (Token.firstCode? second.body).all (comment.line < ·.span.line)) = comments := by
    refine List.filter_eq_self.2 fun comment listed => ?_
    cases found : Token.firstCode? second.body with
    | none => rfl
    | some token => exact decide_eq_true (before comment listed token found)
  rw [leading, added, List.filter_append, code, kept, leading]

end ScriptMigration
