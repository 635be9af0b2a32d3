import Mathlib.Data.List.TakeWhile
import ScriptMigration.Proofs.Text.Lines
import ScriptMigration.Token.Lexer

/-! The pieces that a text is cut into. `Spells` says which texts a token is read from, and each item
that is scanned is a piece of the text that fits what it is read as. -/
namespace ScriptMigration.Lexer

open Text

def Digits (isDigit : Char → Bool) (text : List Char) : Prop := text ≠ [] ∧ ∀ c ∈ text, isDigit c

def Point (text : List Char) : Prop := text = [] ∨ ∃ digits, Digits Char.isDigit digits ∧ text = '.' :: digits

def Power (text : List Char) : Prop :=
  text = [] ∨ ∃ e sign digits, (e = 'e' ∨ e = 'E') ∧ sign ∈ [[], ['+'], ['-']] ∧
    Digits Char.isDigit digits ∧ text = e :: (sign ++ digits)

def doubled (value : List Char) : List Char := value.flatMap fun c => if c = '"' then ['"', '"'] else [c]

/-- The texts that a token with its lexeme is read from. -/
inductive Spells : TokenKind → (lexeme raw : List Char) → Prop
  | whole {digits} (written : Digits Char.isDigit digits) : Spells .intLiteral digits digits
  | decimal {whole point power} (digits : ∀ c ∈ whole, c.isDigit) (places : Point point)
      (powers : Power power) (begins : whole ≠ [] ∨ point ≠ []) (more : point ≠ [] ∨ power ≠ []) :
      Spells .floatLiteral (whole ++ point ++ power) (whole ++ point ++ power)
  | hexadecimal {mark digits closing} (marked : mark ∈ [['h'], ['H']]) (written : Digits isHexDigit digits)
      (small : digitsValue 16 digits < 2 ^ (63 : Nat)) (closed : closing ∈ [[], ['&']]) :
      Spells .hexLiteral digits ('&' :: (mark ++ digits ++ closing))
  | octal {mark digits closing} (marked : mark ∈ [[], ['o'], ['O']]) (written : Digits isOctDigit digits)
      (small : digitsValue 8 digits < 2 ^ (63 : Nat)) (closed : closing ∈ [[], ['&']]) :
      Spells .octLiteral digits ('&' :: (mark ++ digits ++ closing))
  | quoted {value} (inLine : InLine value) : Spells .stringLiteral value ('"' :: (doubled value ++ ['"']))
  | date {inner} (inLine : InLine inner) (open' : '#' ∉ inner) :
      Spells .dateLiteral (trimChars inner) ('#' :: (inner ++ ['#']))
  | bracketed {inner} (inLine : InLine inner) (open' : ']' ∉ inner) :
      Spells .identifier inner ('[' :: (inner ++ [']']))
  | name {first rest} (starts : isNameStart first) (follows : ∀ c ∈ rest, isNameChar c)
      (free : Keyword.find? (String.ofList (first :: rest)) = none) :
      Spells .identifier (first :: rest) (first :: rest)
  | word {word first rest} (starts : isNameStart first) (follows : ∀ c ∈ rest, isNameChar c)
      (reserved : Keyword.find? (String.ofList (first :: rest)) = some word) :
      Spells (.keyword word) (first :: rest) (first :: rest)
  | mark (symbol : Mark) : Spells (.mark symbol) symbol.text.toList symbol.text.toList

theorem isNameChar_of_isNameStart {c : Char} (starts : isNameStart c) : isNameChar c := by
  unfold isNameChar Char.isAlphanum
  unfold isNameStart at starts
  rw [starts]
  rfl

theorem Digits.inLine {test : Char → Bool} {text : List Char} (digits : Digits test text)
    (feed : test '\n' = false) (turn : test '\r' = false) : InLine text :=
  .of_test digits.2 feed turn

theorem inLine_doubled {value : List Char} (inLine : InLine value) : InLine (doubled value) := by
  intro c listed
  obtain ⟨d, among, isOf⟩ := List.mem_flatMap.1 listed
  split at isOf
  · obtain rfl : c = '"' := by simpa using isOf
    decide
  · exact List.mem_singleton.1 isOf ▸ inLine d among

namespace Spells

variable {kind : TokenKind} {lexeme raw : List Char}

theorem inLine (spells : Spells kind lexeme raw) : InLine raw := by
  have digit {digits : List Char} (written : Digits Char.isDigit digits) : InLine digits :=
    written.inLine rfl rfl
  have enclosed {inner : List Char} (first last : Char) (inside : InLine inner)
      (plain : InLine [first] := by decide) (plain' : InLine [last] := by decide) :
      InLine (first :: (inner ++ [last])) :=
    .cons (plain first List.mem_cons_self) (.append inside plain')
  have named {first : Char} {rest : List Char} (starts : isNameStart first)
      (follows : ∀ c ∈ rest, isNameChar c) : InLine (first :: rest) :=
    .of_test (List.forall_mem_cons.2 ⟨isNameChar_of_isNameStart starts, follows⟩) rfl rfl
  have listed {marks : List (List Char)} {mark : List Char} (isMark : mark ∈ marks)
      (plain : ∀ mark ∈ marks, InLine mark) : InLine mark := plain mark isMark
  cases spells with
  | whole written => exact digit written
  | decimal digits places powers begins more =>
    refine .append (.append (.of_test digits rfl rfl) ?_) ?_
    · rcases places with rfl | ⟨digits, written, rfl⟩
      · exact nofun
      · exact .cons (by decide) (digit written)
    · rcases powers with rfl | ⟨e, sign, digits, isE, isSign, written, rfl⟩
      · exact nofun
      · refine .cons ?_ (.append (listed isSign (by decide)) (digit written))
        rcases isE with rfl | rfl <;> decide
  | hexadecimal mark written small closed =>
    refine .cons (by decide) (.append (.append ?_ (written.inLine rfl rfl)) ?_)
    · exact listed mark (by decide)
    · exact listed closed (by decide)
  | octal mark written small closed =>
    refine .cons (by decide) (.append (.append ?_ (written.inLine rfl rfl)) ?_)
    · exact listed mark (by decide)
    · exact listed closed (by decide)
  | quoted inside => exact enclosed _ _ (inLine_doubled inside)
  | date inside _ => exact enclosed _ _ inside
  | bracketed inside _ => exact enclosed _ _ inside
  | name starts follows free => exact named starts follows
  | word starts follows reserved => exact named starts follows
  | mark symbol => cases symbol <;> decide

theorem filled (spells : Spells kind lexeme raw) : raw ≠ [] := by
  cases spells with
  | whole written => exact written.1
  | decimal digits places powers begins more => rcases begins with filled | filled <;> simp [filled]
  | mark symbol => cases symbol <;> decide
  | _ => exact List.cons_ne_nil _ _

theorem kind_ne (spells : Spells kind lexeme raw) :
    kind ≠ .newline ∧ kind ≠ .endOfText ∧ kind ≠ .invalid := by
  cases spells <;> exact ⟨nofun, nofun, nofun⟩

end Spells

inductive Piece where
  | blank (c : Char)
  /-- An underscore, the blanks after it and the break that does not end the line. -/
  | continuation (spaces ending : List Char)
  | lineBreak (text : List Char)
  | comment (marker body : List Char)
  /-- A token, with the type suffix that is dropped. -/
  | token (kind : TokenKind) (lexeme raw suffix : List Char)
  | fault (cause : LexicalCause) (text : List Char) (bytes : Nat)

namespace Piece

def text : Piece → List Char
  | blank c => [c]
  | continuation spaces ending => '_' :: (spaces ++ ending)
  | lineBreak text => text
  | comment marker body => marker ++ body
  | token _ _ raw suffix => raw ++ suffix
  | fault _ text _ => text

def item : Piece → Option Item
  | blank _ | continuation _ _ => none
  | lineBreak _ => some .lineBreak
  | comment _ body => some (.comment (String.ofList (trimChars body)))
  | token kind lexeme raw _ => some (.token kind (String.ofList lexeme) (utf8 raw).length)
  | fault cause _ bytes => some (.fault cause bytes)

def Fits (after : List Char) : Piece → Prop
  | blank c => c = ' ' ∨ c = '\t' ∨ c = '\uFEFF'
  | continuation spaces ending => (∀ c ∈ spaces, c = ' ' ∨ c = '\t') ∧
      (IsBreak ending ∧ Apart ending after ∨ ending = [] ∧ after = [])
  | lineBreak text => IsBreak text ∧ Apart text after
  | comment marker body =>
      (marker = ['\''] ∨ sameName (String.ofList marker) "rem") ∧ InLine (marker ++ body) ∧ marker ≠ []
  | token kind lexeme raw suffix => Spells kind lexeme raw ∧
      (suffix = [] ∨ ∃ c, suffix = [c] ∧ isTypeSuffix c ∧ lexeme = raw ∧
        (kind = .identifier ∨ kind = .intLiteral ∨ kind = .floatLiteral))
  | fault _ text bytes => text ≠ [] ∧ InLine text ∧ (bytes = 0 ∨ bytes = (utf8 text).length)

end Piece

def Scan.Takes (found : Scan) (text : List Char) : Prop :=
  ∃ piece after, text = Piece.text piece ++ after ∧ piece.text.length = found.more + 1 ∧
    piece.Fits after ∧ piece.item = some found.item

theorem byteWidth_eq (text : List Char) : byteWidth text = (utf8 text).length := (length_utf8 text).symm

theorem takeWhile_spec (test : Char → Bool) (text : List Char) :
    ∃ after, text = text.takeWhile test ++ after ∧ text.drop (text.takeWhile test).length = after ∧
      ∀ c ∈ text.takeWhile test, test c := by
  have whole : text = text.takeWhile test ++ text.dropWhile test :=
    List.takeWhile_append_dropWhile.symm
  refine ⟨text.dropWhile test, whole, ?_, fun c listed => List.mem_takeWhile_imp listed⟩
  calc text.drop (text.takeWhile test).length
      = (text.takeWhile test ++ text.dropWhile test).drop (text.takeWhile test).length :=
        congrArg _ whole
    _ = text.dropWhile test := List.drop_left

section Tokens

variable {kind : TokenKind} {lexeme raw suffix after : List Char}

theorem Scan.Takes.read (spells : Spells kind lexeme raw) (filled : raw ≠ [])
    (after : List Char) : (Scan.read kind lexeme raw 0).Takes (raw ++ after) := by
  have positive := List.length_pos_of_ne_nil filled
  refine ⟨.token kind lexeme raw [], after, ?_, ?_, ⟨spells, .inl rfl⟩, ?_⟩
  · rw [Piece.text, List.append_nil]
  · rw [Piece.text, List.append_nil, Scan.read]
    dsimp only
    omega
  · rw [Piece.item, Scan.read, byteWidth_eq]

theorem suffixWidth_spec (text : List Char) :
    suffixWidth text = 0 ∨
      suffixWidth text = 1 ∧ ∃ c rest, text = c :: rest ∧ isTypeSuffix c := by
  cases text with
  | nil => exact .inl rfl
  | cons c rest =>
    by_cases isSuffix : isTypeSuffix c
    · unfold suffixWidth
      dsimp only
      rw [isSuffix, if_neg (by decide)]
      exact (ite_eq_or_eq _ 1 0).symm.imp_right fun one => ⟨one, c, rest, rfl, isSuffix⟩
    · refine .inl ?_
      unfold suffixWidth
      dsimp only
      rw [eq_false_of_ne_true isSuffix]
      rfl

theorem Scan.Takes.suffixed (spells : Spells kind raw raw) (filled : raw ≠ [])
    (marked : kind = .identifier ∨ kind = .intLiteral ∨ kind = .floatLiteral) (after : List Char) :
    (Scan.read kind raw raw (suffixWidth after)).Takes (raw ++ after) := by
  rcases suffixWidth_spec after with none | ⟨one, c, rest, rfl, isSuffix⟩
  · rw [none]
    exact .read spells filled after
  · have positive := List.length_pos_of_ne_nil filled
    rw [one]
    refine ⟨.token kind raw raw [c], rest, ?_, ?_, ⟨spells, .inr ⟨c, rfl, isSuffix, rfl, marked⟩⟩, ?_⟩
    · rw [Piece.text, List.append_assoc]
      rfl
    · rw [Piece.text, List.length_append, Scan.read]
      change raw.length + 1 = raw.length - 1 + 1 + 1
      omega
    · rw [Piece.item, Scan.read, byteWidth_eq]

theorem Scan.Takes.fault (cause : LexicalCause) (first : Char) {inner : List Char}
    (inLine : InLine (first :: inner)) (after : List Char) :
    Takes ⟨.fault cause 0, inner.length⟩ (first :: inner ++ after) :=
  ⟨.fault cause (first :: inner) 0, after, rfl, rfl, ⟨List.cons_ne_nil _ _, inLine, .inl rfl⟩, rfl⟩

end Tokens

section Scans

theorem isLineBreak_false {c : Char} : isLineBreak c = false ↔ c ≠ '\n' ∧ c ≠ '\r' := by
  simp [isLineBreak]

theorem quoted_spec (rest : List Char) :
    ∃ text after, rest = text ++ after ∧ text.length = (quoted rest).width ∧
      ((quoted rest).closed → InLine (quoted rest).value ∧
        text = doubled (quoted rest).value ++ ['"']) ∧
      ((quoted rest).closed = false → InLine text) := by
  fun_induction quoted rest with
  | case1 => exact ⟨[], [], rfl, rfl, nofun, fun _ => nofun⟩
  | case2 rest tail ih =>
    obtain ⟨text, after, rfl, width, isClosed, isOpen⟩ := ih
    refine ⟨'"' :: '"' :: text, after, rfl, congrArg (· + 2) width, fun closed => ?_, fun open' => ?_⟩
    · obtain ⟨inLine, isText⟩ := isClosed closed
      exact ⟨.cons (by decide) inLine, congrArg ('"' :: '"' :: ·) isText⟩
    · exact .cons (by decide) (.cons (by decide) (isOpen open'))
  | case3 c rest other isQuote =>
    obtain rfl := eq_of_beq isQuote
    exact ⟨['"'], rest, rfl, rfl, fun _ => ⟨nofun, rfl⟩, nofun⟩
  | case4 c rest other notQuote breaks => exact ⟨[], c :: rest, rfl, rfl, nofun, fun _ => nofun⟩
  | case5 c rest other notQuote inside tail ih =>
    obtain ⟨text, after, rfl, width, isClosed, isOpen⟩ := ih
    have plain := isLineBreak_false.1 (eq_false_of_ne_true inside)
    refine ⟨c :: text, after, rfl, congrArg (· + 1) width, fun closed => ?_, fun open' => ?_⟩
    · obtain ⟨inLine, isText⟩ := isClosed closed
      refine ⟨.cons plain inLine, ?_⟩
      have single : c ≠ '"' := fun same => notQuote (beq_iff_eq.2 same)
      rw [isText, doubled, doubled, List.flatMap_cons, if_neg single]
      rfl
    · exact .cons plain (isOpen open')

theorem scanString_takes (rest : List Char) : (scanString rest).Takes ('"' :: rest) := by
  obtain ⟨text, after, whole, width, isClosed, isOpen⟩ := quoted_spec rest
  unfold scanString
  dsimp only
  split
  · rename_i closed
    obtain ⟨inLine, isText⟩ := isClosed closed
    have taken : rest.take (quoted rest).width = text := by rw [← width, whole, List.take_left]
    rw [taken]
    have isWhole : '"' :: rest = ('"' :: text) ++ after := congrArg _ whole
    rw [isWhole, isText]
    exact .read (.quoted inLine) (List.cons_ne_nil _ _) after
  · rename_i isNot
    rw [← width]
    have isWhole : '"' :: rest = '"' :: text ++ after := congrArg _ whole
    rw [isWhole]
    exact .fault _ '"' (.cons (by decide) (isOpen (eq_false_of_ne_true isNot))) after

theorem scanEnclosed_takes {first close : Char} {kind : TokenKind} {value : List Char → List Char}
    (plain : first ≠ '\n' ∧ first ≠ '\r')
    (spells : ∀ inner, InLine inner → close ∉ inner →
      Spells kind (value inner) (first :: (inner ++ [close]))) (cause : LexicalCause)
    (rest : List Char) : (scanEnclosed first close cause kind value rest).Takes (first :: rest) := by
  obtain ⟨after, whole, dropped, passed⟩ := takeWhile_spec (fun c => c != close && !isLineBreak c) rest
  unfold scanEnclosed
  dsimp only
  generalize rest.takeWhile (fun c => c != close && !isLineBreak c) = inner at *
  have inLine : InLine inner := fun c listed => by
    have passes := passed c listed
    rw [Bool.and_eq_true, Bool.not_eq_true'] at passes
    exact isLineBreak_false.1 passes.2
  have inside : close ∉ inner := fun listed => by
    have passes := passed close listed
    simp at passes
  rw [dropped, whole]
  cases after with
  | nil => exact .fault cause first (.cons plain inLine) []
  | cons c after =>
    by_cases isClose : c = close
    · subst isClose
      rw [List.head?_cons, beq_self_eq_true, if_pos rfl]
      have isWhole : first :: (inner ++ c :: after) = (first :: (inner ++ [c])) ++ after := by simp
      rw [isWhole]
      exact .read (spells inner inLine inside) (List.cons_ne_nil _ _) after
    · have other : (some c == some close) = false :=
        beq_eq_false_iff_ne.2 fun same => isClose (Option.some.inj same)
      rw [List.head?_cons, other]
      exact .fault cause first (.cons plain inLine) (c :: after)

theorem takeWhile_filled {test : Char → Bool} {text : List Char} (begins : text.head?.any test) :
    text.takeWhile test ≠ [] := by
  cases text with
  | nil => exact nomatch begins
  | cons c rest =>
    have passes : test c := begins
    rw [List.takeWhile_cons_of_pos passes]
    exact List.cons_ne_nil _ _

theorem radix?_spec {rest : List Char} {kind : TokenKind} {base width : Nat}
    (found : radix? rest = some (kind, base, width)) :
    ∃ mark after, rest = mark ++ after ∧ mark.length = width - 1 ∧ InLine mark ∧
      (kind = .hexLiteral ∧ base = 16 ∧ mark ∈ [['h'], ['H']] ∧ after.head?.any isHexDigit ∨
        kind = .octLiteral ∧ base = 8 ∧ mark ∈ [[], ['o'], ['O']] ∧ after.head?.any isOctDigit) := by
  cases rest with
  | nil => exact nomatch found
  | cons c rest =>
    unfold radix? at found
    dsimp only at found
    split at found
    · rename_i isHex
      have marked : c = 'h' ∨ c = 'H' := by simpa using isHex
      split at found
      · rename_i begins
        obtain ⟨rfl, rfl, rfl⟩ := Option.some.inj found
        refine ⟨[c], rest, rfl, rfl, ?_, .inl ⟨rfl, rfl, by simpa using marked, begins⟩⟩
        rcases marked with rfl | rfl <;> exact .cons (by decide) nofun
      · exact nomatch found
    · split at found
      · rename_i isOct
        have marked : c = 'o' ∨ c = 'O' := by simpa using isOct
        split at found
        · rename_i begins
          obtain ⟨rfl, rfl, rfl⟩ := Option.some.inj found
          refine ⟨[c], rest, rfl, rfl, ?_, .inr ⟨rfl, rfl, by simpa using marked, begins⟩⟩
          rcases marked with rfl | rfl <;> exact .cons (by decide) nofun
        · exact nomatch found
      · split at found
        · rename_i isDigit
          obtain ⟨rfl, rfl, rfl⟩ := Option.some.inj found
          exact ⟨[], c :: rest, rfl, rfl, nofun, .inr ⟨rfl, rfl, by simp, isDigit⟩⟩
        · exact nomatch found

theorem scanRadix_reads {kind : TokenKind} {base width : Nat} {mark after : List Char}
    {isDigit : Char → Bool} (isTest : ∀ c, (if base == 16 then isHexDigit c else isOctDigit c) = isDigit c)
    (marked : mark.length = width - 1) (inLine : InLine mark) (begins : after.head?.any isDigit)
    (feed : isDigit '\n' = false) (turn : isDigit '\r' = false)
    (spells : ∀ digits closing, Digits isDigit digits → digitsValue base digits < 2 ^ (63 : Nat) →
      closing ∈ [[], ['&']] → Spells kind digits ('&' :: (mark ++ digits ++ closing))) :
    (scanRadix kind base width (mark ++ after)).Takes ('&' :: (mark ++ after)) := by
  unfold scanRadix
  simp only [isTest]
  rw [← marked, List.drop_left]
  have filled := takeWhile_filled begins
  obtain ⟨later, whole, dropped, passed⟩ := takeWhile_spec isDigit after
  rw [dropped]
  generalize after.takeWhile isDigit = digits at *
  subst whole
  split
  · rename_i small
    have taken (closing : List Char) (rest : List Char) (isLater : later = closing ++ rest) :
        (mark ++ (digits ++ later)).take (mark.length + digits.length + closing.length) =
          mark ++ digits ++ closing := by
      rw [isLater, ← List.append_assoc, ← List.append_assoc, ← List.length_append,
        ← List.length_append, List.take_left]
    have reads (closing rest : List Char) (isLater : later = closing ++ rest)
        (closed : closing ∈ [[], ['&']]) :
        (Scan.read kind digits ('&' :: (mark ++ digits ++ closing)) 0).Takes
          ('&' :: (mark ++ (digits ++ later))) := by
      have isWhole : '&' :: (mark ++ (digits ++ later)) =
          ('&' :: (mark ++ digits ++ closing)) ++ rest := by simp [isLater]
      rw [isWhole]
      exact .read (spells digits closing ⟨filled, passed⟩ small closed) (List.cons_ne_nil _ _) rest
    split
    · rename_i isClosed
      obtain ⟨rest, isLater⟩ : ∃ rest, later = ['&'] ++ rest := by
        cases later with
        | nil => exact nomatch isClosed
        | cons c rest => exact ⟨rest, congrArg (· :: rest) (Option.some.inj (eq_of_beq isClosed))⟩
      have taken := taken ['&'] rest isLater
      rw [List.length_singleton] at taken
      rw [taken]
      exact reads ['&'] rest isLater (by simp)
    · have taken := taken [] later rfl
      rw [List.length_nil] at taken
      rw [taken]
      exact reads [] later rfl (by simp)
  · have plain : InLine ('&' :: (mark ++ digits)) := by
      refine .cons (by decide) fun c listed => ?_
      rcases List.mem_append.1 listed with among | among
      · exact inLine c among
      · exact InLine.of_test passed feed turn c among
    rw [← List.append_assoc, ← List.length_append]
    exact .fault _ '&' plain later

theorem scanRadix_takes {rest : List Char} {kind : TokenKind} {base width : Nat}
    (found : radix? rest = some (kind, base, width)) :
    (scanRadix kind base width rest).Takes ('&' :: rest) := by
  obtain ⟨mark, after, rfl, marked, inLine, hex | oct⟩ := radix?_spec found
  · obtain ⟨rfl, rfl, isMark, begins⟩ := hex
    exact scanRadix_reads (fun _ => rfl) marked inLine begins rfl rfl fun digits closing written small closed =>
      .hexadecimal isMark written small closed
  · obtain ⟨rfl, rfl, isMark, begins⟩ := oct
    exact scanRadix_reads (fun _ => rfl) marked inLine begins rfl rfl fun digits closing written small closed =>
      .octal isMark written small closed

theorem fraction_spec (text : List Char) :
    Point (fraction text) ∧ ∃ after, text = fraction text ++ after := by
  unfold fraction
  split
  · rename_i rest
    obtain ⟨after, whole, _, passed⟩ := takeWhile_spec Char.isDigit rest
    dsimp only
    split
    · exact ⟨.inl rfl, _, rfl⟩
    · rename_i filled
      refine ⟨.inr ⟨_, ⟨?_, passed⟩, rfl⟩, after, congrArg ('.' :: ·) whole⟩
      simpa using filled
  · exact ⟨.inl rfl, _, rfl⟩

theorem exponent_spec (text : List Char) :
    Power (exponent text) ∧ ∃ after, text = exponent text ++ after := by
  unfold exponent
  split
  · exact ⟨.inl rfl, _, rfl⟩
  · rename_i e rest
    split
    · rename_i isMark
      dsimp only
      obtain ⟨sign, after, whole, isSign, taken⟩ : ∃ sign after, rest = sign ++ after ∧
          sign ∈ [[], ['+'], ['-']] ∧
          rest.take (if rest.head? == some '+' || rest.head? == some '-' then 1 else 0) = sign := by
        split
        · rename_i signed
          cases rest with
          | nil => exact nomatch signed
          | cons c rest =>
            refine ⟨[c], rest, rfl, ?_, rfl⟩
            simpa using signed
        · exact ⟨[], rest, rfl, by simp, rfl⟩
      rw [taken, whole, List.drop_left]
      obtain ⟨later, digits, _, passed⟩ := takeWhile_spec Char.isDigit after
      split
      · exact ⟨.inl rfl, _, rfl⟩
      · rename_i filled
        refine ⟨.inr ⟨e, sign, _, by simpa using isMark, isSign, ⟨by simpa using filled, passed⟩, ?_⟩,
          later, ?_⟩
        · rfl
        · rw [List.cons_append, List.cons_append, List.append_assoc, ← digits]
    · exact ⟨.inl rfl, _, rfl⟩

theorem scanNumber_takes {c : Char} {rest : List Char}
    (begins : c.isDigit || (c == '.' && rest.head?.any Char.isDigit)) :
    (scanNumber (c :: rest)).Takes (c :: rest) := by
  unfold scanNumber
  dsimp only
  obtain ⟨after, whole, dropped, passed⟩ := takeWhile_spec Char.isDigit (c :: rest)
  have starts : (c :: rest).takeWhile Char.isDigit ≠ [] ∨ fraction after ≠ [] := by
    rw [Bool.or_eq_true, Bool.and_eq_true] at begins
    rcases begins with isDigit | ⟨isPoint, digit⟩
    · exact .inl (takeWhile_filled isDigit)
    · obtain rfl := eq_of_beq isPoint
      have none : ('.' :: rest).takeWhile Char.isDigit = [] := rfl
      rw [none] at whole
      subst whole
      have filled := takeWhile_filled digit
      refine .inr ?_
      rw [fraction, if_neg (by simpa using filled)]
      exact List.cons_ne_nil _ _
  rw [dropped]
  generalize (c :: rest).takeWhile Char.isDigit = digits at *
  generalize c :: rest = text at *
  subst whole
  obtain ⟨places, later, isAfter⟩ := fraction_spec after
  generalize fraction after = point at *
  subst isAfter
  have dropped' : (digits ++ (point ++ later)).drop (digits.length + point.length) = later := by
    rw [← List.append_assoc, ← List.length_append, List.drop_left]
  rw [dropped']
  obtain ⟨powers, last, isLater⟩ := exponent_spec later
  generalize exponent later = power at *
  subst isLater
  have isWhole : digits ++ (point ++ (power ++ last)) = digits ++ point ++ power ++ last := by simp
  have filled : digits ++ point ++ power ≠ [] := by
    rcases starts with filled | filled <;> simp [filled]
  rw [isWhole, List.drop_left]
  split
  · rename_i plain
    obtain ⟨rfl, rfl⟩ : point = [] ∧ power = [] := by simpa using plain
    have isDigits : Digits Char.isDigit (digits ++ [] ++ []) := by
      rw [List.append_nil, List.append_nil]
      exact ⟨starts.resolve_right fun filled => filled rfl, passed⟩
    exact .suffixed (.whole isDigits) filled (.inr (.inl rfl)) last
  · rename_i more
    have more : point ≠ [] ∨ power ≠ [] := by
      rw [← not_and_or]
      simpa using more
    exact .suffixed (.decimal passed places powers starts more) filled (.inr (.inr rfl)) last

theorem scanLineComment_takes {marker rest : List Char}
    (isMarker : marker = ['\''] ∨ sameName (String.ofList marker) "rem") (filled : marker ≠ [])
    (inLine : InLine marker) : (scanLineComment marker rest).Takes (marker ++ rest) := by
  unfold scanLineComment
  obtain ⟨after, whole, _, passed⟩ := takeWhile_spec (fun c => !isLineBreak c) rest
  dsimp only
  generalize rest.takeWhile (fun c => !isLineBreak c) = body at *
  have plain : InLine (marker ++ body) := fun c listed => by
    rcases List.mem_append.1 listed with among | among
    · exact inLine c among
    · exact InLine.of_test passed rfl rfl c among
  have positive := List.length_pos_of_ne_nil filled
  refine ⟨.comment marker body, after, ?_, ?_, ⟨isMarker, plain, filled⟩, rfl⟩
  · rw [whole, Piece.text, List.append_assoc]
  · rw [Piece.text, List.length_append]
    dsimp only
    omega

theorem scanWord_takes {c : Char} {rest : List Char} (starts : isNameStart c) :
    (scanWord (c :: rest)).Takes (c :: rest) := by
  have isName := isNameChar_of_isNameStart starts
  unfold scanWord
  obtain ⟨after, whole, dropped, passed⟩ := takeWhile_spec isNameChar (c :: rest)
  have isCons : (c :: rest).takeWhile isNameChar = c :: rest.takeWhile isNameChar :=
    List.takeWhile_cons_of_pos isName
  have follows : ∀ d ∈ rest.takeWhile isNameChar, isNameChar d := fun d listed =>
    List.mem_takeWhile_imp listed
  dsimp only
  rw [dropped]
  rw [isCons] at whole passed ⊢
  generalize rest.takeWhile isNameChar = later at *
  rw [whole]
  split
  · rename_i isRem
    rw [Bool.and_eq_true] at isRem
    exact scanLineComment_takes (.inr isRem.1) (List.cons_ne_nil _ _) (.of_test passed rfl rfl)
  · split
    · rename_i found reserved
      exact .read (.word starts follows reserved) (List.cons_ne_nil _ _) after
    · rename_i free
      exact .suffixed (.name starts follows free) (List.cons_ne_nil _ _) (.inl rfl) after

theorem mark?_spec {c : Char} {rest : List Char} {symbol : Mark} (found : mark? c rest.head? = some symbol) :
    ∃ after, c :: rest = symbol.text.toList ++ after := by
  have opens {d : Char} (isNext : (rest.head? == some d) = true) : ∃ after, rest = d :: after := by
    cases rest with
    | nil => exact nomatch isNext
    | cons e after => exact ⟨after, congrArg (· :: after) (Option.some.inj (eq_of_beq isNext))⟩
  unfold mark? at found
  split at found
  case h_14 =>
    split at found
    · rename_i isNext
      obtain ⟨after, rfl⟩ := opens isNext
      obtain rfl := Option.some.inj found
      exact ⟨after, rfl⟩
    · split at found
      · rename_i isNext
        obtain ⟨after, rfl⟩ := opens isNext
        obtain rfl := Option.some.inj found
        exact ⟨after, rfl⟩
      · obtain rfl := Option.some.inj found
        exact ⟨rest, rfl⟩
  case h_15 =>
    split at found
    · rename_i isNext
      obtain ⟨after, rfl⟩ := opens isNext
      obtain rfl := Option.some.inj found
      exact ⟨after, rfl⟩
    · obtain rfl := Option.some.inj found
      exact ⟨rest, rfl⟩
  case h_16 => exact nomatch found
  all_goals
    obtain rfl := Option.some.inj found
    exact ⟨rest, rfl⟩

theorem scanMark_takes {c : Char} {rest : List Char} (plain : c ≠ '\n' ∧ c ≠ '\r') :
    (scanMark c rest).Takes (c :: rest) := by
  unfold scanMark
  split
  · rename_i symbol found
    obtain ⟨after, whole⟩ := mark?_spec found
    have filled : symbol.text.toList ≠ [] := by cases symbol <;> decide
    rw [whole]
    exact .read (.mark symbol) filled after
  · refine ⟨.fault (.unexpectedChar c) [c] c.utf8Size, rest, rfl, rfl, ?_, rfl⟩
    refine ⟨List.cons_ne_nil _ _, .cons plain nofun, .inr ?_⟩
    rw [← byteWidth_eq]
    rfl

theorem scanBreak_takes {c : Char} {rest : List Char} (breaks : isLineBreak c) :
    Scan.Takes ⟨.lineBreak, if c == '\r' && rest.head? == some '\n' then 1 else 0⟩ (c :: rest) := by
  split
  · rename_i isBoth
    rw [Bool.and_eq_true] at isBoth
    obtain rfl := eq_of_beq isBoth.1
    cases rest with
    | nil => exact nomatch isBoth.2
    | cons d rest =>
      obtain rfl : d = '\n' := Option.some.inj (eq_of_beq isBoth.2)
      exact ⟨.lineBreak ['\r', '\n'], rest, rfl, rfl, ⟨.inr (.inr rfl), nofun⟩, rfl⟩
  · rename_i notBoth
    have isBreak : IsBreak [c] := by
      rcases (by simpa [isLineBreak] using breaks : c = '\n' ∨ c = '\r') with rfl | rfl
      · exact .inl rfl
      · exact .inr (.inl rfl)
    refine ⟨.lineBreak [c], rest, rfl, rfl, ⟨isBreak, fun isReturn opens => notBoth ?_⟩, rfl⟩
    obtain rfl : c = '\r' := by simpa using isReturn
    rw [opens]
    rfl

theorem scan_takes (c : Char) (rest : List Char) : (scan c rest).Takes (c :: rest) := by
  unfold scan
  split
  · rename_i breaks
    exact scanBreak_takes breaks
  rename_i notBreak
  have plain := isLineBreak_false.1 (eq_false_of_ne_true notBreak)
  split
  · rename_i isQuote
    obtain rfl := eq_of_beq isQuote
    exact scanLineComment_takes (.inl rfl) (List.cons_ne_nil _ _) (.cons plain nofun)
  split
  · rename_i isQuote
    obtain rfl := eq_of_beq isQuote
    exact scanString_takes rest
  split
  · rename_i isMark
    obtain rfl := eq_of_beq isMark
    exact scanEnclosed_takes plain (fun inner inLine inside => .date inLine inside) _ rest
  split
  · rename_i isMark
    obtain rfl := eq_of_beq isMark
    exact scanEnclosed_takes plain (fun inner inLine inside => .bracketed inLine inside) _ rest
  split
  · rename_i begins
    exact scanNumber_takes begins
  split
  · rename_i starts
    exact scanWord_takes starts
  split
  · rename_i kind base width found
    split at found
    · rename_i isAmp
      obtain rfl := eq_of_beq isAmp
      exact scanRadix_takes found
    · exact nomatch found
  · exact scanMark_takes plain

end Scans

end ScriptMigration.Lexer
