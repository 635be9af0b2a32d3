import ScriptMigration.Proofs.Token.Opening

/-! String literals. A string is written in quotes with two quotes for each of its own, and a literal is
read as the string that it was written for: which of the quotes in a row closes it is settled by whether
another one follows. -/
namespace ScriptMigration

namespace Lexer

open Text

section Quotes

variable {c : Char} {value rest after : List Char}

theorem quoted_pair (rest : List Char) : quoted ('"' :: '"' :: rest) =
    ⟨'"' :: (quoted rest).value, (quoted rest).width + 2, (quoted rest).closed⟩ := by
  rw [quoted]

theorem quoted_close (closes : after.head? ≠ some '"') : quoted ('"' :: after) = ⟨[], 1, true⟩ := by
  rw [quoted]
  · rfl
  · rintro rest - rfl
    exact closes rfl

theorem quoted_plain (other : c ≠ '"') (within : c ≠ '\n' ∧ c ≠ '\r') (rest : List Char) :
    quoted (c :: rest) = ⟨c :: (quoted rest).value, (quoted rest).width + 1, (quoted rest).closed⟩ := by
  rw [quoted]
  · rw [beq_eq_false_iff_ne.2 other, isLineBreak_false.2 within]
    rfl
  · rintro rest rfl -
    exact other rfl

theorem quoted_doubled (inLine : InLine value) (closes : after.head? ≠ some '"') :
    quoted (doubled value ++ '"' :: after) = ⟨value, (doubled value).length + 1, true⟩ := by
  induction value with
  | nil => exact quoted_close closes
  | cons c value ih =>
    have later := ih fun d listed => inLine d (List.mem_cons_of_mem c listed)
    by_cases isQuote : c = '"'
    · subst isQuote
      change quoted ('"' :: '"' :: (doubled value ++ '"' :: after)) = _
      rw [quoted_pair, later]
      rfl
    · have single : doubled (c :: value) = c :: doubled value := by
        rw [doubled, List.flatMap_cons, if_neg isQuote]
        rfl
      rw [single, List.cons_append, quoted_plain isQuote (inLine c List.mem_cons_self), later]
      rfl

theorem scan_string (rest : List Char) : scan '"' rest = scanString rest := rfl

theorem scanString_doubled (inLine : InLine value) (closes : after.head? ≠ some '"') :
    scanString (doubled value ++ '"' :: after) =
      .read .stringLiteral value ('"' :: (doubled value ++ ['"'])) 0 := by
  have taken : (doubled value ++ '"' :: after).take ((doubled value).length + 1) =
      doubled value ++ ['"'] := by
    rw [List.take_length_add_append]
    rfl
  unfold scanString
  rw [quoted_doubled inLine closes]
  dsimp only
  rw [if_pos rfl, taken]

theorem byteWidth_ofList (text : List Char) : byteWidth text = (String.ofList text).utf8ByteSize := by
  rw [byteWidth_eq]
  change _ = (text.flatMap String.utf8EncodeChar).toByteArray.size
  rw [List.size_toByteArray]
  rfl

theorem run_string {cursor : Cursor} (inLine : InLine value) (closes : after.head? ≠ some '"')
    (opens : cursor.rest = '"' :: (doubled value ++ '"' :: after)) (atLineStart : Bool) :
    (run cursor atLineStart).tokens =
      ⟨.stringLiteral, String.ofList value,
        ⟨cursor.line, cursor.col, byteWidth ('"' :: (doubled value ++ ['"']))⟩⟩ ::
      (run (cursor.skip ('"' :: (doubled value ++ ['"'])).length) false).tokens := by
  rw [run_item rfl (by decide) opens, scan_string, scanString_doubled inLine closes]
  rfl

end Quotes

end Lexer

open Text Lexer

def quotedText (value : String) : String := String.ofList ('"' :: (doubled value.toList ++ ['"']))

/-- Strings and their literals. Any string within a line is read from its literal, which the token covers,
where no quote follows; and each literal of a text is that of the string it is read as. -/
theorem lex_strings :
    (∀ value after : String, InLine value.toList → after.toList.head? ≠ some '"' →
      (lex (quotedText value ++ after)).tokens.head? =
        some ⟨.stringLiteral, value, ⟨1, 1, (quotedText value).utf8ByteSize⟩⟩) ∧
    ∀ text : String, ∀ token ∈ (lex text).tokens, token.kind = .stringLiteral →
      InLine token.lexeme.toList ∧ token.Covers text.toList (quotedText token.lexeme).toList := by
  constructor
  · intro value after inLine closes
    have opens : (Cursor.start (quotedText value ++ after)).rest =
        '"' :: (doubled value.toList ++ '"' :: after.toList) := by
      simp [Cursor.start, quotedText]
    unfold lex
    rw [run_string inLine closes opens, byteWidth_ofList, String.ofList_toList]
    rfl
  · intro text token listed isString
    obtain ⟨raw, spells, covers⟩ := lex_covers listed (isString ▸ nofun) (isString ▸ nofun)
      (isString ▸ nofun)
    rw [isString] at spells
    cases spells with
    | quoted inLine =>
      refine ⟨inLine, ?_⟩
      rw [quotedText, String.toList_ofList]
      exact covers

/-- The quotes at the end of a literal are in a row with the one that closes it. -/
theorem lex_strings_quotes : InLine "say \"hi\"".toList ∧ ": x".toList.head? ≠ some '"' ∧
    (lex "\"say \"\"hi\"\"\": x").tokens.head? =
      some ⟨.stringLiteral, "say \"hi\"", ⟨1, 1, 12⟩⟩ :=
  ⟨by decide, by decide, lex_strings.1 "say \"hi\"" ": x" (by decide) (by decide)⟩

end ScriptMigration
