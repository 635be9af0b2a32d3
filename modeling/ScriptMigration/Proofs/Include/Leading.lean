import ScriptMigration.Proofs.Text.Name
import ScriptMigration.Proofs.Text.Trim
import ScriptMigration.Proofs.Token.Opening
import ScriptMigration.Include.Header

/-! The comments that open a text, found twice: the header of a text is read line by line, and the
lexer collects comments on its way to the first token. `Leads` and `Code` are the lines that both take
for the same, and on texts that open with such lines the two agree. -/
namespace ScriptMigration

namespace Header

open Text Lexer

/-- A line before the code of a text, with the text of its comment. -/
inductive Leads : List Char → Option (List Char) → Prop
  | blank : Leads [] none
  | quote {body} (within : InLine body) : Leads ('\'' :: body) (some body)
  | remark {word body} (isRem : sameName (String.ofList word) "rem") (apart : body.head?.all isBlank)
      (within : InLine body) : Leads (word ++ body) (some body)
  | explicit {first gap second trail} (isOption : sameName (String.ofList first) "option")
      (isExplicit : sameName (String.ofList second) "explicit") (apart : gap ≠ [])
      (between : ∀ c ∈ gap, isSpace c) (ends : ∀ c ∈ trail, isSpace c) :
      Leads (first ++ (gap ++ (second ++ trail))) none
  | indent {c line comment} (space : isSpace c) (leads : Leads line comment) : Leads (c :: line) comment

inductive Code : List Char → Prop
  | begins {c rest} (solid : isBlank c = false) (other : c ≠ '\'' ∧ c ≠ '_' ∧ c ≠ '\uFEFF')
      (noOption : sameName (String.ofList ((c :: rest).takeWhile isNameChar)) "option" = false)
      (noRemark : sameName (String.ofList ((c :: rest).takeWhile isNameChar)) "rem" →
        ((c :: rest).drop ((c :: rest).takeWhile isNameChar).length).head?.any fun c =>
          c == '.' || c == '(' || c == '=') : Code (c :: rest)
  | indent {c line} (space : isSpace c) (code : Code line) : Code (c :: line)

/-- The lines of a text to the first one with code. -/
inductive Regular : List String → Prop
  | done : Regular []
  | code {line rest} (code : Code line.toList) : Regular (line :: rest)
  | lead {line rest comment} (leads : Leads line.toList comment) (regular : Regular rest) :
      Regular (line :: rest)

section Blanks

variable {c : Char} {text : List Char}

theorem isBlank_of_isSpace (space : isSpace c) : isBlank c := by
  rcases isSpace_iff.1 space with rfl | rfl <;> rfl

theorem isBlank_of_isLineBreak (breaks : isLineBreak c) : isBlank c := by
  rcases (by simpa [isLineBreak] using breaks : c = '\n' ∨ c = '\r') with rfl | rfl <;> rfl

theorem solid_of_isAlpha (letter : c.isAlpha) : isBlank c = false := by
  refine Bool.eq_false_iff.2 fun blank => ?_
  exact nomatch (isNameChar_of_isBlank blank).symm.trans (isNameChar_of_isNameStart letter)

theorem solid_of_sameName {word : List Char} {spelling : String}
    (same : sameName (String.ofList word) spelling) (letters : spelling.toList.all (·.toLower.isAlpha)) :
    ∀ c ∈ word, isBlank c = false :=
  fun c listed => solid_of_isAlpha (isAlpha_of_sameName same letters c listed)

theorem stops_of_blank (apart : text.head?.all isBlank) : text.head?.all (!isNameChar ·) :=
  head?_all_mono (fun c blank => by simp [isNameChar_of_isBlank blank]) apart

theorem head?_all_rdropWhile (apart : text.head?.all isBlank) :
    (text.rdropWhile isBlank).head?.all isBlank := by
  obtain ⟨trail, whole⟩ := List.rdropWhile_prefix isBlank text
  cases kept : text.rdropWhile isBlank with
  | nil => rfl
  | cons c rest =>
    rw [kept] at whole
    rw [← whole] at apart
    exact apart

end Blanks

section Items

variable {line : List Char} {comment : Option (List Char)} {number : Nat} {rest : List (String × Nat)}

theorem foldCase_of_toLower {text : String} (lower : text.toList.map Char.toLower = text.toList) :
    foldCase text = text := by
  rw [← String.toList_inj, foldCase, FoldedName.of, String.toList_map, lower]

theorem option_of_isOptionExplicit {word after : List Char} (filled : word ≠ [])
    (solid : ∀ c ∈ word, isBlank c = false) (apart : after.head?.all isBlank)
    (explicit : isOptionExplicit (String.ofList (word ++ after))) :
    sameName (String.ofList word) "option" := by
  unfold isOptionExplicit at explicit
  rw [words_solid filled solid apart, List.map_cons] at explicit
  have folded : foldCase (String.ofList word) = "option" := (List.cons.inj (eq_of_beq explicit)).1
  rw [sameName_iff_foldCase, folded, foldCase_of_toLower (by decide)]

theorem exists_word {c : Char} (solid : isBlank c = false) (rest : List Char) :
    ∃ word after, c :: rest = c :: word ++ after ∧ (∀ d ∈ c :: word, isBlank d = false) ∧
      after.head?.all isBlank := by
  refine ⟨rest.takeWhile (!isBlank ·), rest.dropWhile (!isBlank ·), ?_, ?_, ?_⟩
  · rw [List.cons_append, List.takeWhile_append_dropWhile]
  · refine List.forall_mem_cons.2 ⟨solid, fun d listed => ?_⟩
    simpa using List.mem_takeWhile_imp listed
  · cases after : rest.dropWhile (!isBlank ·) with
    | nil => rfl
    | cons d after =>
      have stops := List.head_dropWhile_not (!isBlank ·) (l := rest) (by simp [after])
      simpa [after] using stops

theorem isOptionExplicit_of_mark {c : Char} (solid : isBlank c = false) (mark : c.isAlpha = false)
    (text : List Char) : isOptionExplicit (String.ofList (c :: text)) = false := by
  refine Bool.eq_false_iff.2 fun explicit => ?_
  obtain ⟨word, after, whole, filled, apart⟩ := exists_word solid text
  rw [whole] at explicit
  have isOption := option_of_isOptionExplicit (List.cons_ne_nil _ _) filled apart explicit
  exact nomatch mark.symm.trans (isAlpha_of_sameName isOption (by decide) c List.mem_cons_self)

theorem items_indent {c : Char} (space : isSpace c) :
    items ((String.ofList (c :: line), number) :: rest) = items ((String.ofList line, number) :: rest) := by
  have same : trim (String.ofList (c :: line)) = trim (String.ofList line) := by
    rw [trim, trim, String.toList_ofList, String.toList_ofList,
      trimChars_blank (isBlank_of_isSpace space)]
  rw [items, items, same]

theorem commentItems_congr {first second : List Char} (same : trimChars first = trimChars second) :
    commentItems number first = commentItems number second := by
  rw [commentItems, commentItems, same]

theorem items_comment {word body : List Char} (filled : word ≠ [])
    (solid : ∀ c ∈ word, isBlank c = false)
    (isComment : comment? (word ++ body.rdropWhile isBlank) = some (body.rdropWhile isBlank))
    (noOption : isOptionExplicit (String.ofList (word ++ body.rdropWhile isBlank)) = false) :
    items ((String.ofList (word ++ body), number) :: rest) = commentItems number body ++ items rest := by
  have trimmed : trim (String.ofList (word ++ body)) =
      String.ofList (word ++ body.rdropWhile isBlank) := by
    rw [trim, String.toList_ofList, trimChars_word filled solid]
  have shown : (String.ofList (word ++ body.rdropWhile isBlank)).isEmpty = false := by
    rw [← Bool.not_eq_true, String.isEmpty_iff, ← String.toList_inj, String.toList_ofList]
    simp [filled]
  rw [items, trimmed, shown, noOption, String.toList_ofList, isComment,
    ← commentItems_congr (trimChars_rdropWhile body)]
  rfl

theorem comment?_remark {word body : List Char} (isRem : sameName (String.ofList word) "rem")
    (apart : body.head?.all isBlank) : comment? (word ++ body) = some body := by
  have letters := isAlpha_of_sameName isRem (by decide)
  have folded := folded_of_sameName isRem
  have long : word.length = 3 := by
    have lengths := congrArg List.length folded
    rwa [List.length_map, List.length_map] at lengths
  obtain ⟨c, word, rfl⟩ := List.exists_cons_of_ne_nil (filled_of_sameName isRem (by decide))
  have quote : c ≠ '\'' := by
    rintro rfl
    exact nomatch letters _ List.mem_cons_self
  have dropped : dropFolded? "rem".toList (c :: word ++ body) = some body := by
    have three : "rem".toList.length = 3 := by decide
    rw [dropFolded?, three, ← long, List.take_left, List.drop_left, folded]
    exact if_pos (by decide)
  unfold comment?
  split
  · rename_i same
    exact absurd (List.cons.inj same).1 quote
  · rw [dropped, Option.filter_some, if_pos apart]

theorem comment?_eq_some {text body : List Char} (found : comment? text = some body) :
    text.head? = some '\'' ∨ ∃ word, text = word ++ body ∧ sameName (String.ofList word) "rem" ∧
      body.head?.all isBlank := by
  unfold comment? at found
  split at found
  · exact .inl rfl
  · obtain ⟨dropped, apart⟩ := Option.filter_eq_some_iff.1 found
    unfold dropFolded? at dropped
    split at dropped
    · rename_i isRem
      obtain rfl := Option.some.inj dropped
      refine .inr ⟨_, (List.take_append_drop "rem".toList.length text).symm, ?_, apart⟩
      rw [sameName_toList, String.toList_ofList, eq_of_beq isRem]
      decide
    · exact nomatch dropped

theorem isOptionExplicit_spaced {first gap second : List Char}
    (isOption : sameName (String.ofList first) "option")
    (isExplicit : sameName (String.ofList second) "explicit") (apart : gap ≠ [])
    (between : ∀ c ∈ gap, isSpace c) :
    isOptionExplicit (String.ofList (first ++ (gap ++ second))) := by
  have blank : ∀ c ∈ gap, isBlank c := fun c listed => isBlank_of_isSpace (between c listed)
  have follows : (gap ++ second).head?.all isBlank := by
    obtain ⟨c, gap, rfl⟩ := List.exists_cons_of_ne_nil apart
    exact blank c List.mem_cons_self
  have last : words (String.ofList (second ++ [])) = String.ofList second :: words (String.ofList []) :=
    words_solid (filled_of_sameName isExplicit (by decide)) (solid_of_sameName isExplicit (by decide)) rfl
  rw [List.append_nil] at last
  unfold isOptionExplicit
  rw [words_solid (filled_of_sameName isOption (by decide)) (solid_of_sameName isOption (by decide)) follows,
    words_indent blank, last, words_nil, List.map_cons, List.map_cons, List.map_nil,
    sameName_iff_foldCase.1 isOption, sameName_iff_foldCase.1 isExplicit,
    foldCase_of_toLower (by decide), foldCase_of_toLower (by decide)]
  exact beq_self_eq_true _

/-- A line before the code adds the items of its comment. -/
theorem Leads.items (leads : Leads line comment) (number : Nat) (rest : List (String × Nat)) :
    Header.items ((String.ofList line, number) :: rest) =
      comment.elim [] (commentItems number) ++ Header.items rest := by
  induction leads with
  | blank => rfl
  | @quote body within =>
    have solid : ∀ c ∈ ['\''], isBlank c = false := List.forall_mem_singleton.2 rfl
    change Header.items ((String.ofList (['\''] ++ body), number) :: rest) = _
    exact items_comment (List.cons_ne_nil _ _) solid rfl (isOptionExplicit_of_mark rfl rfl _)
  | @remark word body isRem apart within =>
    have solid := solid_of_sameName isRem (by decide)
    have filled := filled_of_sameName isRem (by decide)
    have ends := head?_all_rdropWhile apart
    refine items_comment filled solid (comment?_remark isRem ends) ?_
    refine Bool.eq_false_iff.2 fun explicit => ?_
    have folded := folded_of_sameName (option_of_isOptionExplicit filled solid ends explicit)
    rw [folded_of_sameName isRem] at folded
    exact absurd folded (by decide)
  | @explicit first gap second trail isOption isExplicit apart between ends =>
    have blank : trail.rdropWhile isBlank = [] :=
      List.rdropWhile_eq_nil_iff.2 fun c listed => isBlank_of_isSpace (ends c listed)
    have trimmed : trim (String.ofList (first ++ (gap ++ (second ++ trail)))) =
        String.ofList (first ++ (gap ++ second)) := by
      rw [trim, String.toList_ofList,
        trimChars_word (filled_of_sameName isOption (by decide)) (solid_of_sameName isOption (by decide)),
        rdropWhile_word (filled_of_sameName isExplicit (by decide)) (solid_of_sameName isExplicit (by decide)),
        blank, List.append_nil]
    rw [Header.items, trimmed, isOptionExplicit_spaced isOption isExplicit apart between, Bool.or_true]
    rfl
  | @indent c line comment space leads ih =>
    exact (items_indent space).trans ih

theorem takeWhile_of_trimmed {c : Char} {rest word after : List Char}
    (whole : c :: rest.rdropWhile isBlank = word ++ after) (letters : ∀ d ∈ word, d.isAlpha)
    (apart : after.head?.all isBlank) :
    (c :: rest).takeWhile isNameChar = word ∧
      ((c :: rest).drop word.length).head?.all isBlank := by
  obtain ⟨trail, isTrail, blank⟩ : ∃ trail, rest = rest.rdropWhile isBlank ++ trail ∧
      ∀ d ∈ trail, isBlank d := by
    have parts := congrArg List.reverse
      (List.takeWhile_append_dropWhile (p := isBlank) (l := rest.reverse)).symm
    rw [List.reverse_reverse, List.reverse_append] at parts
    exact ⟨_, parts, fun d listed => List.mem_takeWhile_imp (List.mem_reverse.1 listed)⟩
  have line : c :: rest = word ++ (after ++ trail) := by
    rw [isTrail, ← List.cons_append, whole, List.append_assoc]
  have ends : (after ++ trail).head?.all isBlank := head?_all_append apart (head?_all_of_forall blank)
  rw [line, takeWhile_word letters (stops_of_blank ends), List.drop_left]
  exact ⟨rfl, ends⟩

theorem items_solid {c : Char} {text : List Char} (solid : isBlank c = false)
    (noExplicit : isOptionExplicit (String.ofList (c :: text.rdropWhile isBlank)) = false)
    (noComment : comment? (c :: text.rdropWhile isBlank) = none) :
    items ((String.ofList (c :: text), number) :: rest) = [] := by
  have trimmed : trim (String.ofList (c :: text)) = String.ofList (c :: text.rdropWhile isBlank) := by
    rw [trim, String.toList_ofList, trimChars_cons solid]
  have shown : (String.ofList (c :: text.rdropWhile isBlank)).isEmpty = false := by
    rw [← Bool.not_eq_true, String.isEmpty_iff, ← String.toList_inj, String.toList_ofList]
    exact List.cons_ne_nil _ _
  rw [items, trimmed, shown, noExplicit, String.toList_ofList, noComment]
  rfl

theorem Code.items (code : Code line) (number : Nat) (rest : List (String × Nat)) :
    Header.items ((String.ofList line, number) :: rest) = [] := by
  induction code with
  | @begins c text solid other noOption noRemark =>
    refine items_solid solid ?_ ?_
    · refine Bool.eq_false_iff.2 fun explicit => ?_
      obtain ⟨word, after, whole, plain, apart⟩ := exists_word solid (text.rdropWhile isBlank)
      rw [whole] at explicit
      have isOption := option_of_isOptionExplicit (List.cons_ne_nil _ _) plain apart explicit
      have letters := isAlpha_of_sameName isOption (by decide)
      rw [(takeWhile_of_trimmed whole letters apart).1, isOption] at noOption
      exact nomatch noOption
    · refine Option.eq_none_iff_forall_ne_some.2 fun body found => ?_
      rcases comment?_eq_some found with quote | ⟨word, whole, isRem, apart⟩
      · exact other.1 (Option.some.inj quote)
      · obtain ⟨isWord, ends⟩ := takeWhile_of_trimmed whole (isAlpha_of_sameName isRem (by decide)) apart
        have stops := noRemark (isWord ▸ isRem)
        rw [isWord] at stops
        obtain ⟨d, first, isStop⟩ := (Option.any_eq_true _ _).1 stops
        rw [first] at ends
        simp only [Bool.or_eq_true, beq_iff_eq] at isStop
        rcases isStop with (rfl | rfl) | rfl <;> exact nomatch ends
  | @indent c line space code ih =>
    exact (items_indent space).trans ih

theorem items_mark (text : List Char) :
    Header.items ((String.ofList ('\uFEFF' :: text), number) :: rest) = [] := by
  refine items_solid rfl (isOptionExplicit_of_mark rfl rfl _) ?_
  refine Option.eq_none_iff_forall_ne_some.2 fun body found => ?_
  rcases comment?_eq_some found with quote | ⟨word, whole, isRem, _⟩
  · exact nomatch quote
  · obtain ⟨c, word, rfl⟩ := List.exists_cons_of_ne_nil (filled_of_sameName isRem (by decide))
    obtain ⟨rfl, -⟩ := List.cons.inj whole
    exact nomatch isAlpha_of_sameName isRem (by decide) '\uFEFF' List.mem_cons_self

end Items

section Lexing

variable {c : Char} {cursor : Cursor} {line word rest after : List Char}
  {comment : Option (List Char)}

theorem exists_letter {spelling : String} (same : sameName (String.ofList word) spelling)
    (letters : spelling.toList.all (·.toLower.isAlpha)) (filled : spelling.toList ≠ []) :
    ∃ c rest, word = c :: rest ∧ isNameStart c ∧ isSpace c = false ∧ c ≠ '_' ∧ c ≠ '\uFEFF' := by
  obtain ⟨c, rest, rfl⟩ := List.exists_cons_of_ne_nil (filled_of_sameName same filled)
  have letter := isAlpha_of_sameName same letters c List.mem_cons_self
  refine ⟨c, rest, rfl, letter, Bool.eq_false_iff.2 fun space => ?_, ?_, ?_⟩
  · rcases isSpace_iff.1 space with rfl | rfl <;> exact nomatch letter
  · rintro rfl
    exact nomatch letter
  · rintro rfl
    exact nomatch letter

theorem stops_of_blank_of_marks (marks : Char → Bool) (apart : rest.head?.all isBlank)
    (solid : ∀ c, marks c → isBlank c = false) :
    rest.head?.all fun c => !isNameChar c && !marks c := by
  refine head?_all_mono (fun c blank => ?_) apart
  have unmarked : marks c = false := Bool.eq_false_iff.2 fun marked =>
    nomatch (solid c marked).symm.trans blank
  rw [isNameChar_of_isBlank blank, unmarked]
  rfl

theorem inLine_of_letters (letters : ∀ c ∈ word, c.isAlpha) : InLine word :=
  .of_test letters rfl rfl

theorem inLine_of_spaces (spaces : ∀ c ∈ word, isSpace c) : InLine word := .of_test spaces rfl rfl

theorem run_word {spelling : String} {kind : TokenKind} (same : sameName (String.ofList word) spelling)
    (letters : spelling.toList.all (·.toLower.isAlpha)) (filled : spelling.toList ≠ [])
    (opens : cursor.rest = word ++ after) (scans : scanWord (word ++ after) = .read kind word word 0)
    (atLineStart : Bool) :
    ∃ token, token.kind = kind ∧ token.lexeme = String.ofList word ∧
      (run cursor atLineStart).body = token :: (run (cursor.skip word.length) false).body ∧
      (run cursor atLineStart).comments = (run (cursor.skip word.length) false).comments := by
  obtain ⟨c, rest, rfl, starts, space, other⟩ := exists_letter same letters filled
  exact run_token space other opens ((scan_word starts _).trans scans) atLineStart

theorem head?_ne_of_letters {spelling : String} (same : sameName (String.ofList word) spelling)
    (letters : spelling.toList.all (·.toLower.isAlpha)) (filled : spelling.toList ≠ []) :
    (word ++ after).head? ≠ some '\uFEFF' := by
  obtain ⟨c, rest, rfl, _, _, _, other⟩ := exists_letter same letters filled
  exact fun marked => other (Option.some.inj marked)

theorem Leads.head?_ne (leads : Leads line comment) (ends : after.head?.all isLineBreak) :
    (line ++ after).head? ≠ some '\uFEFF' := by
  cases leads with
  | blank =>
    intro marked
    rw [List.nil_append] at marked
    rw [marked] at ends
    exact nomatch ends
  | quote => exact nofun
  | remark isRem =>
    rw [List.append_assoc]
    exact head?_ne_of_letters isRem (by decide) (by decide)
  | explicit isOption =>
    rw [List.append_assoc]
    exact head?_ne_of_letters isOption (by decide) (by decide)
  | indent space =>
    rintro ⟨⟩
    exact nomatch space

theorem run_explicit {first gap second trail : List Char}
    (isOption : sameName (String.ofList first) "option")
    (isExplicit : sameName (String.ofList second) "explicit") (apart : gap ≠ [])
    (between : ∀ c ∈ gap, isSpace c) (blank : ∀ c ∈ trail, isSpace c)
    (opens : cursor.rest = first ++ (gap ++ (second ++ (trail ++ after))))
    (ends : after.head?.all isLineBreak) (atLineStart : Bool) :
    ∃ (next : Cursor) (between : Bool), next.rest = after ∧ next.line = cursor.line ∧
      Token.firstCode? (run cursor atLineStart).body = Token.firstCode? (run next between).body ∧
      (run cursor atLineStart).comments = (run next between).comments := by
  have blankTrail : (trail ++ after).head?.all isBlank := head?_all_append
    (head?_all_of_forall fun c listed => isBlank_of_isSpace (blank c listed))
    (head?_all_mono (fun _ => isBlank_of_isLineBreak) ends)
  have blankGap : (gap ++ (second ++ (trail ++ after))).head?.all isBlank := by
    obtain ⟨c, gap, rfl⟩ := List.exists_cons_of_ne_nil apart
    exact isBlank_of_isSpace (between c List.mem_cons_self)
  have stopsSecond := stops_of_blank_of_marks isTypeSuffix blankTrail fun c isSuffix => by
    simp only [isTypeSuffix, Bool.or_eq_true, beq_iff_eq] at isSuffix
    rcases isSuffix with ((((rfl | rfl) | rfl) | rfl) | rfl) | rfl <;> rfl
  obtain ⟨option, isKeyword, _, body₁, comments₁⟩ := run_word isOption (by decide) (by decide) opens
    (scanWord_option isOption (stops_of_blank blankGap)) atLineStart
  have opens₁ := Cursor.rest_skip_append opens
  have line₁ := Cursor.line_skip (inLine_of_letters (isAlpha_of_sameName isOption (by decide))) opens
  rw [run_spaces between (head?_ne_of_letters isExplicit (by decide) (by decide)) opens₁] at body₁ comments₁
  have opens₂ := Cursor.rest_skip_append opens₁
  have line₂ := Cursor.line_skip (inLine_of_spaces between) opens₁
  obtain ⟨explicit, isName, lexeme, body₂, comments₂⟩ := run_word isExplicit (by decide) (by decide)
    opens₂ (scanWord_explicit isExplicit stopsSecond) false
  have opens₃ := Cursor.rest_skip_append opens₂
  have line₃ := Cursor.line_skip (inLine_of_letters (isAlpha_of_sameName isExplicit (by decide))) opens₂
  rw [run_spaces blank (Leads.blank.head?_ne ends) opens₃] at body₂ comments₂
  refine ⟨_, false, Cursor.rest_skip_append opens₃, ?_, ?_, comments₁.trans comments₂⟩
  · rw [Cursor.line_skip (inLine_of_spaces blank) opens₃, line₃, line₂, line₁]
  · have word : explicit.isWord "explicit" := by
      rw [Token.isWord, isName, lexeme, isExplicit]
      rfl
    rw [body₁, body₂, Token.firstCode?_explicit isKeyword word]

theorem Leads.lexes (leads : Leads line comment) (opens : cursor.rest = line ++ after)
    (ends : after.head?.all isLineBreak) (atLineStart : Bool) :
    ∃ (next : Cursor) (between : Bool), next.rest = after ∧ next.line = cursor.line ∧
      Token.firstCode? (run cursor atLineStart).body = Token.firstCode? (run next between).body ∧
      (run cursor atLineStart).comments =
        (comment.map fun body => ⟨cursor.line, String.ofList (trimChars body)⟩).toList ++
          (run next between).comments := by
  have blankAfter : after.head?.all isBlank := head?_all_mono (fun _ => isBlank_of_isLineBreak) ends
  induction leads generalizing cursor with
  | blank => exact ⟨cursor, atLineStart, opens, rfl, rfl, rfl⟩
  | @quote body within =>
    have inLine : InLine ('\'' :: body) := .cons (by decide) within
    have opens' : cursor.rest = '\'' :: ([] ++ (body ++ after)) := opens
    obtain ⟨sameBody, comments⟩ := run_comment rfl (by decide) opens' rfl within ends atLineStart
    exact ⟨_, atLineStart, Cursor.rest_skip_append opens, Cursor.line_skip inLine opens,
      congrArg _ sameBody, comments⟩
  | @remark word body isRem apart within =>
    have inLine : InLine (word ++ body) :=
      .append (inLine_of_letters (isAlpha_of_sameName isRem (by decide))) within
    have stops := stops_of_blank_of_marks (fun c => c == '.' || c == '(' || c == '=')
      (head?_all_append apart blankAfter) fun c isStop => by
        simp only [Bool.or_eq_true, beq_iff_eq] at isStop
        rcases isStop with (rfl | rfl) | rfl <;> rfl
    have scans := scanWord_remark isRem stops
    obtain ⟨c, rest, rfl, starts, space, other⟩ := exists_letter isRem (by decide) (by decide)
    have opens' : cursor.rest = c :: (rest ++ (body ++ after)) := by
      rw [opens, List.append_assoc]
      rfl
    obtain ⟨sameBody, comments⟩ := run_comment space other opens' ((scan_word starts _).trans scans)
      within ends atLineStart
    exact ⟨_, atLineStart, Cursor.rest_skip_append opens, Cursor.line_skip inLine opens,
      congrArg _ sameBody, comments⟩
  | explicit isOption isExplicit apart between blank =>
    exact run_explicit isOption isExplicit apart between blank (opens.trans (by simp)) ends atLineStart
  | @indent c line comment space leads ih =>
    obtain ⟨next, here⟩ := advance_space space opens
    rw [run_space space (leads.head?_ne ends) opens, ← here]
    exact ih next

theorem Code.head?_ne (code : Code line) : (line ++ after).head? ≠ some '\uFEFF' := by
  cases code with
  | begins _ other => exact fun marked => other.2.2 (Option.some.inj marked)
  | indent space =>
    rintro ⟨⟩
    exact nomatch space

theorem Code.lexes (code : Code line) (opens : cursor.rest = line ++ after)
    (ends : after.head?.all isLineBreak) (atLineStart : Bool) :
    ∃ token, Token.firstCode? (run cursor atLineStart).body = some token ∧
      token.span.line = cursor.line := by
  induction code generalizing cursor with
  | @begins c rest solid other noOption noRemark =>
    have space : isSpace c = false := Bool.eq_false_iff.2 fun space =>
      nomatch (isBlank_of_isSpace space).symm.trans solid
    have stops := stops_of_blank (head?_all_mono (fun _ => isBlank_of_isLineBreak) ends)
    have sameWord : (c :: (rest ++ after)).takeWhile isNameChar = (c :: rest).takeWhile isNameChar :=
      takeWhile_append_of_stops stops (c :: rest)
    have kept : ((c :: rest).takeWhile isNameChar).length ≤ (c :: rest).length :=
      (List.takeWhile_prefix _).length_le
    have cases' := scan_code (rest ++ after) solid other.1 (sameWord ▸ noOption) fun isRem => by
      rw [sameWord] at isRem ⊢
      rw [← List.cons_append, List.drop_append_of_le_length kept]
      exact head?_any_append (noRemark isRem)
    rw [run_item space other.2 opens]
    rcases cases' with ⟨kind, lexeme, bytes, isToken, ordinary, noKeyword⟩ | ⟨cause, bytes, isFault⟩
    · rw [List.append_eq, isToken]
      exact ⟨_, Token.firstCode?_code ordinary noKeyword, rfl⟩
    · rw [List.append_eq, isFault]
      exact ⟨_, Token.firstCode?_code nofun nofun, rfl⟩
  | @indent c line space code ih =>
    obtain ⟨next, here⟩ := advance_space space opens
    rw [run_space space code.head?_ne opens, ← here]
    exact ih next

end Lexing

section Whole

variable {cursor : Cursor} {text : List Char}

def ofComments (comments : List Comment) : List HeaderItem :=
  comments.flatMap fun comment => commentItems comment.line comment.text.toList

theorem leading_run {token : Token} {atLineStart : Bool}
    (found : Token.firstCode? (run cursor atLineStart).body = some token)
    (here : token.span.line = cursor.line) : (run cursor atLineStart).leading = [] := by
  rw [Lexed.leading, found, List.filter_eq_nil_iff]
  intro comment listed
  have later := (run_lines cursor atLineStart).2 comment listed
  simp [here, later]

theorem ofComments_lead (comment : Option (List Char)) (line : Nat) (rest : List Comment) :
    ofComments ((comment.map fun body => ⟨line, String.ofList (trimChars body)⟩).toList ++ rest) =
      comment.elim [] (commentItems line) ++ ofComments rest := by
  cases comment with
  | none => rfl
  | some body =>
    have same : commentItems line (trimChars body) = commentItems line body :=
      commentItems_congr (trimChars_trimChars body)
    rw [ofComments, List.flatMap_append, ofComments, Option.elim_some, ← same]
    simp

theorem items_line {line after : List Char} {rest : List String} (opens : cursor.rest = line ++ after)
    (ends : after.head?.all isLineBreak) (regular : Regular (String.ofList line :: rest))
    (later : ∀ (next : Cursor) (between : Bool), next.rest = after → next.line = cursor.line →
      Regular rest →
        (∀ token, Token.firstCode? (run next between).body = some token →
          cursor.line < token.span.line) ∧
        items (rest.zipIdx (cursor.line + 1)) = ofComments (run next between).leading)
    (atLineStart : Bool) :
    items ((String.ofList line :: rest).zipIdx cursor.line) =
      ofComments (run cursor atLineStart).leading := by
  rw [List.zipIdx_cons]
  cases regular with
  | code code =>
    rw [String.toList_ofList] at code
    obtain ⟨token, found, here⟩ := code.lexes opens ends atLineStart
    rw [code.items, leading_run found here]
    rfl
  | lead leads regular =>
    rw [String.toList_ofList] at leads
    obtain ⟨next, between, opensNext, sameLine, code, comments⟩ := leads.lexes opens ends atLineStart
    obtain ⟨below, same⟩ := later next between opensNext sameLine regular
    rw [leads.items, same, Lexed.leading_append code comments, ofComments_lead]
    intro comment listed token found
    obtain ⟨body, _, rfl⟩ := Option.map_eq_some_iff.1 (Option.mem_toList.1 listed)
    exact below token found

theorem items_lines (text : List Char) {cursor : Cursor} (opens : cursor.rest = text)
    (regular : Regular (lines (String.ofList text))) (atLineStart : Bool) :
    items ((lines (String.ofList text)).zipIdx cursor.line) =
      ofComments (run cursor atLineStart).leading := by
  induction length : text.length using Nat.strong_induction_on generalizing text cursor atLineStart with
  | h size ih =>
    by_cases feed : '\n' ∈ text
    · obtain ⟨whole, rest, rfl, within⟩ := List.eq_append_cons_of_mem feed
      obtain ⟨ending, isBreak, split⟩ := exists_ending whole rest
      have ends : (ending ++ rest).head?.all isLineBreak := by
        rcases isBreak with rfl | rfl <;> rfl
      have shorter : rest.length < size := by
        rw [← length, List.length_append, List.length_cons]
        omega
      rw [lines_feed within] at regular ⊢
      refine items_line (opens.trans split) ends regular ?_ atLineStart
      intro next between opensNext sameLine regularRest
      obtain ⟨opensRest, line, code, comments⟩ := run_break isBreak opensNext between
      rw [sameLine] at line
      refine ⟨fun token found => ?_, ?_⟩
      · have among := Token.mem_of_firstCode? (code ▸ found)
        exact Nat.lt_of_lt_of_eq (Nat.lt_succ_self _) line.symm |>.trans_le
          ((run_lines _ true).1 token among)
      · rw [← line, ih _ shorter rest opensRest regularRest true rfl, Lexed.leading_congr code comments]
    · rcases eq_or_ne text [] with rfl | filled
      · rw [lines_nil, Lexed.leading, (run_nil opens atLineStart).2]
        rfl
      · rw [lines_last feed filled] at regular ⊢
        refine items_line (opens.trans (List.append_nil text).symm) rfl regular ?_ atLineStart
        intro next between opensNext _ _
        obtain ⟨noBody, noComments⟩ := run_nil opensNext between
        rw [Lexed.leading, noBody, noComments]
        exact ⟨(fun _ absurd => by cases absurd), rfl⟩

end Whole

end Header

def IncludeHeader.ofItems (items : List HeaderItem) : IncludeHeader where
  entries := items.filterMap fun
    | .entry entry => some entry
    | .fault _ => none
  faults := items.filterMap fun
    | .entry _ => none
    | .fault fault => some fault

/-- On a text whose header has regular lines only, the header is read from the comments that the lexer
finds before the code. -/
theorem IncludeHeader.read_leading {text : String} (regular : Header.Regular (Text.lines text)) :
    IncludeHeader.read text = .ofItems (Header.ofComments (lex text).leading) := by
  have opens : (Cursor.start text).rest = text.toList := rfl
  have same : String.ofList text.toList = text := String.ofList_toList
  rw [lex, ← Header.items_lines text.toList opens (same.symm ▸ regular) true, same]
  rfl

/-- A header with comments of both forms, and a line that asks for declared variables among them. -/
theorem IncludeHeader.read_leading_remarks :
    let text := "' note\r\n\t'Including Script - Lib:A\nOPTION explicit \nRem x\nDim x\n'Including Script - Lib:B"
    Header.Regular (Text.lines text) ∧
      IncludeHeader.read text = .ofItems (Header.ofComments (lex text).leading) := by
  intro text
  have lines : Text.lines text = ["' note", "\t'Including Script - Lib:A", "OPTION explicit ", "Rem x",
      "Dim x", "'Including Script - Lib:B"] := by decide +kernel
  have note : Header.Leads "' note".toList (some " note".toList) := .quote (by decide)
  have including : Header.Leads "\t'Including Script - Lib:A".toList
      (some "Including Script - Lib:A".toList) := .indent rfl (.quote (by decide))
  have explicit : Header.Leads ("OPTION".toList ++ (" ".toList ++ ("explicit".toList ++ " ".toList))) none :=
    .explicit (by rw [sameName_toList]; decide) (by rw [sameName_toList]; decide) (by decide)
      (List.all_eq_true.1 (by decide)) (List.all_eq_true.1 (by decide))
  have remark : Header.Leads ("Rem".toList ++ " x".toList) (some " x".toList) :=
    .remark (by rw [sameName_toList]; decide) (by decide) (by decide)
  have code : Header.Code "Dim x".toList :=
    .begins rfl (by decide) (by rw [sameName_toList]; decide) (by rw [sameName_toList]; decide)
  have regular : Header.Regular (Text.lines text) := by
    rw [lines]
    exact .lead note (.lead including (.lead explicit (.lead remark (.code code))))
  exact ⟨regular, IncludeHeader.read_leading regular⟩

theorem IncludeHeader.read_mark (text : List Char) :
    IncludeHeader.read (String.ofList ('\uFEFF' :: text)) = .ofItems [] := by
  have none : Header.items ((Text.lines (String.ofList ('\uFEFF' :: text))).zipIdx 1) = [] := by
    by_cases feed : '\n' ∈ text
    · obtain ⟨line, rest, rfl, within⟩ := List.eq_append_cons_of_mem feed
      have marked : '\n' ∉ '\uFEFF' :: line := by simp [within]
      rw [← List.cons_append, Text.lines_feed marked, List.zipIdx_cons, Text.dropReturn_cons]
      · exact Header.items_mark _
      · decide
    · have marked : '\n' ∉ '\uFEFF' :: text := by simp [feed]
      rw [Text.lines_last marked (List.cons_ne_nil _ _), List.zipIdx_cons]
      exact Header.items_mark _
  unfold read
  dsimp only
  rw [none]
  rfl

end ScriptMigration
