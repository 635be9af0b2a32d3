import Mathlib.Data.List.DropRight
import Mathlib.Data.List.TakeWhile
import ScriptMigration.Text.Blank
import ScriptMigration.Text.Name

/-! What trimming leaves of a text, the words of a text, and its lines one after the other. -/
namespace ScriptMigration.Text

section Trim

variable {c : Char} {indent text : List Char}

theorem trimChars_indent (blank : ∀ c ∈ indent, isBlank c) (text : List Char) :
    trimChars (indent ++ text) = trimChars text := by
  rw [trimChars, List.dropWhile_append_of_pos blank, trimChars]

theorem trimChars_blank (blank : isBlank c) (text : List Char) : trimChars (c :: text) = trimChars text :=
  trimChars_indent (List.forall_mem_singleton.2 blank) text

theorem rdropWhile_solid (solid : isBlank c = false) (before rest : List Char) :
    (before ++ c :: rest).rdropWhile isBlank = before ++ c :: rest.rdropWhile isBlank := by
  unfold List.rdropWhile
  rw [List.reverse_append, List.reverse_cons, List.append_assoc, List.dropWhile_append]
  split
  · rename_i empty
    have none : rest.reverse.dropWhile isBlank = [] := List.isEmpty_iff.1 empty
    rw [none, List.singleton_append, List.dropWhile_cons_of_neg (by simp [solid])]
    simp
  · simp

theorem trimChars_of_blank (blank : ∀ c ∈ text, isBlank c) : trimChars text = [] := by
  rw [trimChars, List.dropWhile_eq_nil_iff.2 blank]
  rfl

theorem trimChars_cons (solid : isBlank c = false) (rest : List Char) :
    trimChars (c :: rest) = c :: rest.rdropWhile isBlank := by
  rw [trimChars, List.dropWhile_cons_of_neg (by simp [solid])]
  exact rdropWhile_solid solid [] rest

theorem rdropWhile_word {word : List Char} (filled : word ≠ [])
    (solid : ∀ c ∈ word, isBlank c = false) (before rest : List Char) :
    (before ++ (word ++ rest)).rdropWhile isBlank = before ++ (word ++ rest.rdropWhile isBlank) := by
  obtain ⟨front, last, rfl⟩ := List.eq_nil_or_concat word |>.resolve_left filled
  have whole (rest : List Char) : before ++ (front.concat last ++ rest) =
      before ++ front ++ last :: rest := by simp
  rw [whole, whole, rdropWhile_solid (solid last (by simp))]

theorem trimChars_word {word : List Char} (filled : word ≠ [])
    (solid : ∀ c ∈ word, isBlank c = false) (rest : List Char) :
    trimChars (word ++ rest) = word ++ rest.rdropWhile isBlank := by
  have begins : (word ++ rest).dropWhile isBlank = word ++ rest := by
    obtain ⟨c, word, rfl⟩ := List.exists_cons_of_ne_nil filled
    rw [List.cons_append, List.dropWhile_cons_of_neg (by simp [solid c List.mem_cons_self])]
  rw [trimChars, begins]
  exact rdropWhile_word filled solid [] rest

theorem blank_or_solid (text : List Char) : (∀ c ∈ text, isBlank c) ∨
    ∃ indent c rest, text = indent ++ c :: rest ∧ (∀ c ∈ indent, isBlank c) ∧ isBlank c = false := by
  cases body : text.dropWhile isBlank with
  | nil => exact .inl (List.dropWhile_eq_nil_iff.1 body)
  | cons c rest =>
    have whole := (List.takeWhile_append_dropWhile (p := isBlank) (l := text)).symm
    rw [body] at whole
    refine .inr ⟨_, c, rest, whole, fun d listed => List.mem_takeWhile_imp listed, ?_⟩
    have solid := List.head_dropWhile_not isBlank (l := text) (by simp [body])
    simpa [body] using solid

theorem trimChars_rdropWhile (text : List Char) :
    trimChars (text.rdropWhile isBlank) = trimChars text := by
  rcases blank_or_solid text with blank | ⟨indent, c, rest, rfl, blank, solid⟩
  · rw [List.rdropWhile_eq_nil_iff.2 blank, trimChars_of_blank blank]
    rfl
  · rw [rdropWhile_solid solid, trimChars_indent blank, trimChars_indent blank, trimChars_cons solid,
      trimChars_cons solid, List.rdropWhile_idempotent]

theorem trimChars_trimChars (text : List Char) : trimChars (trimChars text) = trimChars text := by
  rcases blank_or_solid text with blank | ⟨indent, c, rest, rfl, blank, solid⟩
  · rw [trimChars_of_blank blank]
    rfl
  · rw [trimChars_indent blank, trimChars_cons solid, trimChars_cons solid, List.rdropWhile_idempotent]

end Trim

section Split

variable {cut : Char → Bool} {c : Char} {piece rest : List Char}

theorem splitChars_ne_nil (cut : Char → Bool) (text : List Char) : splitChars cut text ≠ [] := by
  cases text with
  | nil => exact List.cons_ne_nil _ _
  | cons c rest =>
    rw [splitChars]
    split
    · exact List.cons_ne_nil _ _
    · split <;> exact List.cons_ne_nil _ _

theorem splitChars_cut (isCut : cut c) (rest : List Char) :
    splitChars cut (c :: rest) = [] :: splitChars cut rest := by
  obtain ⟨first, pieces, found⟩ := List.exists_cons_of_ne_nil (splitChars_ne_nil cut rest)
  rw [splitChars, found]
  exact if_pos isCut

theorem splitChars_append (kept : ∀ c ∈ piece, cut c = false) (rest : List Char) :
    splitChars cut (piece ++ rest) = (splitChars cut rest).modifyHead (piece ++ ·) := by
  obtain ⟨first, pieces, found⟩ := List.exists_cons_of_ne_nil (splitChars_ne_nil cut rest)
  induction piece with
  | nil =>
    rw [List.nil_append, found]
    rfl
  | cons c piece ih =>
    rw [List.cons_append, splitChars, ih fun d listed => kept d (List.mem_cons_of_mem c listed), found]
    exact if_neg (by simp [kept c List.mem_cons_self])

end Split

section Words

variable {indent piece rest : List Char}

theorem words_nil : words (String.ofList []) = [] := rfl

theorem words_indent (blank : ∀ c ∈ indent, isBlank c) (rest : List Char) :
    words (String.ofList (indent ++ rest)) = words (String.ofList rest) := by
  induction indent with
  | nil => rfl
  | cons c indent ih =>
    rw [← ih fun d listed => blank d (List.mem_cons_of_mem c listed)]
    unfold words
    rw [String.toList_ofList, String.toList_ofList, List.cons_append,
      splitChars_cut (blank c List.mem_cons_self)]
    rfl

theorem words_solid (filled : piece ≠ []) (solid : ∀ c ∈ piece, isBlank c = false)
    (apart : rest.head?.all isBlank) :
    words (String.ofList (piece ++ rest)) = String.ofList piece :: words (String.ofList rest) := by
  have here : (fun word : List Char => !word.isEmpty) piece = true := by simp [filled]
  unfold words
  rw [String.toList_ofList, String.toList_ofList, splitChars_append solid]
  cases rest with
  | nil =>
    change List.map _ (List.filter _ [piece ++ []]) = _
    rw [List.append_nil, List.filter_cons_of_pos (p := fun word : List Char => !word.isEmpty) here]
    rfl
  | cons c rest =>
    rw [splitChars_cut apart]
    change List.map _ (List.filter _ ((piece ++ []) :: _)) = _
    rw [List.append_nil, List.filter_cons_of_pos (p := fun word : List Char => !word.isEmpty) here]
    rfl

end Words

section Lines

variable {line : List Char}

theorem dropReturn_cons {c : Char} (other : c ≠ '\r') (rest : List Char) :
    dropReturn (c :: rest) = c :: dropReturn rest := by
  cases rest with
  | nil => exact if_neg (by simpa using other)
  | cons d rest =>
    unfold dropReturn
    rw [List.getLast?_cons_cons, List.dropLast_cons_cons]
    split <;> rfl

theorem lines_nil : lines (String.ofList []) = [] := rfl

theorem exists_ending (line rest : List Char) :
    ∃ ending, (ending = ['\n'] ∨ ending = ['\r', '\n']) ∧
      line ++ '\n' :: rest = dropReturn line ++ (ending ++ rest) := by
  unfold dropReturn
  split
  · rename_i turn
    have whole := List.dropLast_append_getLast? _ (eq_of_beq turn)
    refine ⟨['\r', '\n'], .inr rfl, ?_⟩
    conv_lhs => rw [← whole]
    simp
  · exact ⟨['\n'], .inl rfl, rfl⟩

theorem lines_feed (within : '\n' ∉ line) (rest : List Char) :
    lines (String.ofList (line ++ '\n' :: rest)) =
      String.ofList (dropReturn line) :: lines (String.ofList rest) := by
  have kept : ∀ c ∈ line, (c == '\n') = false := fun c listed =>
    beq_eq_false_iff_ne.2 fun same => within (same ▸ listed)
  obtain ⟨first, pieces, found⟩ :=
    List.exists_cons_of_ne_nil (splitChars_ne_nil (· == '\n') rest)
  have split : splitChars (· == '\n') (line ++ '\n' :: rest) = line :: first :: pieces := by
    rw [splitChars_append kept, splitChars_cut rfl, found, List.modifyHead_cons, List.append_nil]
  unfold lines
  rw [String.toList_ofList, String.toList_ofList, split, found]
  dsimp only
  rw [List.dropLast_cons_cons, List.getLast?_cons_cons]
  split <;> rfl

theorem lines_last (within : '\n' ∉ line) (filled : line ≠ []) :
    lines (String.ofList line) = [String.ofList line] := by
  have kept : ∀ c ∈ line, (c == '\n') = false := fun c listed =>
    beq_eq_false_iff_ne.2 fun same => within (same ▸ listed)
  have whole : splitChars (· == '\n') line = [line] := by
    have alone := splitChars_append kept []
    rwa [List.append_nil, splitChars, List.modifyHead_cons, List.append_nil] at alone
  unfold lines
  rw [String.toList_ofList, whole]
  exact congrArg _ (if_neg (by simpa using filled))

end Lines

end ScriptMigration.Text
