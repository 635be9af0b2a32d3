import ScriptMigration.Number.Binary64
import ScriptMigration.Token.Lexer

/-! Decimal literals: digits, then a point with digits or none, then an exponent or none. -/
namespace ScriptMigration.Decimal

private def exponentValue : List Char → Option Int
  | [] => some 0
  | e :: rest =>
    if e == 'e' || e == 'E' then
      let negative := rest.head? == some '-'
      let digits := if negative || rest.head? == some '+' then rest.drop 1 else rest
      if digits.isEmpty || !digits.all Char.isDigit then none
      else
        let value : Int := Lexer.digitsValue 10 digits
        some (if negative then -value else value)
    else none

theorem exponentValue_nil : exponentValue [] = some 0 := rfl

theorem exponentValue_isSome {e : Char} {sign digits : List Char} (mark : e = 'e' ∨ e = 'E')
    (signed : sign ∈ [[], ['+'], ['-']]) (filled : digits ≠ []) (areDigits : ∀ c ∈ digits, c.isDigit) :
    (exponentValue (e :: (sign ++ digits))).isSome := by
  have isMark : (e == 'e' || e == 'E') = true := by simpa using mark
  have passes : (digits.isEmpty || !digits.all Char.isDigit) = false := by
    simpa [filled] using areDigits
  have unsigned : ∀ d ∈ digits.head?, d ≠ '-' ∧ d ≠ '+' := by
    intro d opens
    have isDigit := areDigits d (List.mem_of_mem_head? opens)
    constructor <;> rintro rfl <;> exact nomatch isDigit
  have same : (if (sign ++ digits).head? == some '-' || (sign ++ digits).head? == some '+' then
      (sign ++ digits).drop 1 else sign ++ digits) = digits := by
    obtain ⟨first, rest, rfl⟩ := List.exists_cons_of_ne_nil filled
    have other := unsigned first rfl
    rcases (by simpa using signed : sign = [] ∨ sign = ['+'] ∨ sign = ['-']) with rfl | rfl | rfl
    · simp [other.1, other.2]
    · rfl
    · rfl
  unfold exponentValue
  simp only [isMark, if_true, same, passes]
  rfl

def parse? (literal : String) : Option (Nat × Int) := do
  let text := literal.toList
  let whole := text.takeWhile Char.isDigit
  let after := text.drop whole.length
  let places := if after.head? == some '.' then (after.drop 1).takeWhile Char.isDigit else []
  let point := if after.head? == some '.' then 1 else 0
  if whole.isEmpty && places.isEmpty then none
  let power ← exponentValue (after.drop (point + places.length))
  return (Lexer.digitsValue 10 (whole ++ places), power - places.length)

theorem parse?_ofList {whole places power : List Char} (point : List Char) (digits : ∀ c ∈ whole, c.isDigit)
    (isPoint : point = [] ∧ places = [] ∨ point = ['.']) (areDigits : ∀ c ∈ places, c.isDigit)
    (begins : whole ≠ [] ∨ places ≠ []) (powers : ∀ e ∈ power.head?, e = 'e' ∨ e = 'E') :
    parse? (String.ofList (whole ++ (point ++ (places ++ power)))) =
      (exponentValue power).map fun (exponent : Int) =>
        (Lexer.digitsValue 10 (whole ++ places), exponent - places.length) := by
  have stops : power.takeWhile Char.isDigit = [] := by
    rcases power with _ | ⟨e, power⟩
    · rfl
    · rcases powers e rfl with rfl | rfl <;> rfl
  have filled : (whole.isEmpty && places.isEmpty) = false := by
    rcases begins with filled | filled <;> simp [filled]
  have wholes : (whole ++ (point ++ (places ++ power))).takeWhile Char.isDigit = whole := by
    have ends : (point ++ (places ++ power)).takeWhile Char.isDigit = [] := by
      rcases isPoint with ⟨rfl, rfl⟩ | rfl
      · exact stops
      · rfl
    rw [List.takeWhile_append_of_pos digits, ends, List.append_nil]
  have rest : (places ++ power).takeWhile Char.isDigit = places := by
    rw [List.takeWhile_append_of_pos areDigits, stops, List.append_nil]
  unfold parse?
  simp only [String.toList_ofList, wholes, List.drop_left]
  rcases isPoint with ⟨rfl, rfl⟩ | rfl
  · have other : (power.head? == some '.') = false := by
      rcases power with _ | ⟨e, power⟩
      · rfl
      · rcases powers e rfl with rfl | rfl <;> rfl
    have filled : whole.isEmpty = false := by simpa using filled
    simp [other, filled]
    cases exponentValue power <;> rfl
  · have dropped : ('.' :: (places ++ power)).drop (1 + places.length) = power := by
      rw [Nat.add_comm, List.drop_succ_cons, List.drop_left]
    simp [rest, filled, dropped]
    cases exponentValue power <;> rfl

def toBinary64? (literal : String) : Option Binary64 :=
  (parse? literal).map fun (digits, power) => Binary64.ofDecimal digits power

end ScriptMigration.Decimal
