import Mathlib.Data.Nat.Digits.Defs
import ScriptMigration.Proofs.Grammar.FaultOrder
import ScriptMigration.Proofs.Token.Opening

/-! The numbers of a text. The lexer cuts out the literals that have a value and no others, so that the
parser never meets a number that it cannot read: what is left to it is to tell whole numbers that are too
large from those that are not. -/
namespace ScriptMigration

def digitValue (c : Char) : Nat := "0123456789abcdef".toList.idxOf c.toLower

def numberValue (base : Nat) (digits : String) : Nat :=
  Nat.ofDigits base (digits.toList.map digitValue).reverse

namespace Lexer

open Text

section Digits

theorem of_ascii {p : Char → Prop} (all : ∀ code < 128, p (Char.ofNat code)) {c : Char}
    (small : c.toNat < 128) : p c := by
  have here := all c.toNat small
  rwa [Char.ofNat_toNat] at here

theorem isHexDigit_of_isDigit {c : Char} (isDigit : c.isDigit) : isHexDigit c := by
  rw [isHexDigit, isDigit]
  rfl

theorem toNat_of_isHexDigit {c : Char} (isDigit : isHexDigit c) : c.toNat < 128 := by
  simp only [isHexDigit, Char.isDigit, Bool.or_eq_true, Bool.and_eq_true, decide_eq_true_eq,
    Char.le_def, UInt32.le_iff_toNat_le] at isDigit
  have same : c.toNat = c.val.toNat := rfl
  simp at isDigit
  omega

theorem isDigit_of_isOctDigit {c : Char} (isDigit : isOctDigit c) : c.isDigit := by
  have all : ∀ code < 128, isOctDigit (Char.ofNat code) → (Char.ofNat code).isDigit := by decide
  refine of_ascii (p := fun c => isOctDigit c → c.isDigit) all ?_ isDigit
  simp only [isOctDigit, Bool.and_eq_true, decide_eq_true_eq, Char.le_def, UInt32.le_iff_toNat_le] at isDigit
  have same : c.toNat = c.val.toNat := rfl
  simp at isDigit
  omega

theorem digit_eq {c : Char} (isDigit : isHexDigit c) : digitsValue.digit c = digitValue c := by
  have all : ∀ code < 128, isHexDigit (Char.ofNat code) →
      digitsValue.digit (Char.ofNat code) = digitValue (Char.ofNat code) := by decide
  exact of_ascii (p := fun c => isHexDigit c → digitsValue.digit c = digitValue c) all
    (toNat_of_isHexDigit isDigit) isDigit

theorem digitsValue_eq {digits : List Char} (areDigits : ∀ c ∈ digits, isHexDigit c) (base : Nat) :
    digitsValue base digits = numberValue base (String.ofList digits) := by
  have same : digits.map digitValue = digits.map digitsValue.digit :=
    List.map_congr_left fun c listed => (digit_eq (areDigits c listed)).symm
  rw [numberValue, String.toList_ofList, same, Nat.ofDigits_eq_foldr, List.foldr_reverse, List.foldl_map,
    digitsValue]
  simp [Nat.mul_comm, Nat.add_comm]

end Digits

inductive RadixMark : (mark : List Char) → (base : Nat) → (isDigit : Char → Bool) → Prop where
  | hexadecimal {mark : List Char} (listed : mark ∈ [['h'], ['H']]) : RadixMark mark 16 isHexDigit
  | octal {mark : List Char} (listed : mark ∈ [[], ['o'], ['O']]) : RadixMark mark 8 isOctDigit

section Radix

variable {mark digits after : List Char} {base : Nat} {isDigit : Char → Bool}

theorem RadixMark.isHexDigit (marked : RadixMark mark base isDigit) {c : Char} (passes : isDigit c) :
    Lexer.isHexDigit c := by
  cases marked with
  | hexadecimal => exact passes
  | octal => exact isHexDigit_of_isDigit (isDigit_of_isOctDigit passes)

theorem scanRadix_large {kind : TokenKind} {width : Nat}
    (isTest : ∀ c, (if base == 16 then Lexer.isHexDigit c else isOctDigit c) = isDigit c)
    (marked : mark.length = width - 1) (written : ∀ c ∈ digits, isDigit c)
    (stops : after.head?.all (!isDigit ·)) (large : 2 ^ 63 ≤ digitsValue base digits) :
    scanRadix kind base width (mark ++ (digits ++ after)) =
      ⟨.fault (.numberOutOfRange (String.ofList digits)) 0, mark.length + digits.length⟩ := by
  unfold scanRadix
  simp only [isTest]
  rw [← marked, List.drop_left, takeWhile_eq_of_stops written stops, if_neg large.not_gt]

theorem scan_large (marked : RadixMark mark base isDigit) (written : Digits isDigit digits)
    (stops : after.head?.all (!isDigit ·)) (large : 2 ^ 63 ≤ digitsValue base digits) :
    scan '&' (mark ++ (digits ++ after)) =
      ⟨.fault (.numberOutOfRange (String.ofList digits)) 0, mark.length + digits.length⟩ := by
  obtain ⟨first, rest, rfl⟩ := List.exists_cons_of_ne_nil written.1
  have begins : isDigit first := written.2 first List.mem_cons_self
  have scans {text : List Char} {kind : TokenKind} {base width : Nat}
      (found : radix? text = some (kind, base, width)) :
      scan '&' text = scanRadix kind base width text := by
    unfold scan
    simp only [found]
    rfl
  cases marked with
  | hexadecimal listed =>
    have found : radix? (mark ++ (first :: rest ++ after)) = some (.hexLiteral, 16, 2) := by
      rcases (by simpa using listed : mark = ['h'] ∨ mark = ['H']) with rfl | rfl <;>
        simp [radix?, begins]
    have width : mark.length = 1 := by
      rcases (by simpa using listed : mark = ['h'] ∨ mark = ['H']) with rfl | rfl <;> rfl
    rw [scans found]
    exact scanRadix_large (fun _ => rfl) width written.2 stops large
  | octal listed =>
    rcases (by simpa using listed : mark = [] ∨ mark = ['o'] ∨ mark = ['O']) with rfl | isMark
    · have other : (first == 'h' || first == 'H') = false ∧ (first == 'o' || first == 'O') = false := by
        have isDigit := isDigit_of_isOctDigit begins
        constructor <;> refine Bool.eq_false_iff.2 fun isMark => ?_ <;>
          rcases (by simpa using isMark) with rfl | rfl <;> cases isDigit
      have found : radix? ([] ++ (first :: rest ++ after)) = some (.octLiteral, 8, 1) := by
        simp [radix?, other, begins]
      rw [scans found]
      exact scanRadix_large (fun _ => rfl) rfl written.2 stops large
    · have found : radix? (mark ++ (first :: rest ++ after)) = some (.octLiteral, 8, 2) := by
        rcases isMark with rfl | rfl <;> simp [radix?, begins]
      have width : mark.length = 1 := by
        rcases isMark with rfl | rfl <;> rfl
      rw [scans found]
      exact scanRadix_large (fun _ => rfl) width written.2 stops large

theorem run_large {cursor : Cursor} (marked : RadixMark mark base isDigit) (written : Digits isDigit digits)
    (stops : after.head?.all (!isDigit ·)) (large : 2 ^ 63 ≤ numberValue base (String.ofList digits))
    (opens : cursor.rest = '&' :: (mark ++ (digits ++ after))) (atLineStart : Bool) :
    ⟨.numberOutOfRange (String.ofList digits), ⟨cursor.line, cursor.col, 0⟩⟩ ∈
      (run cursor atLineStart).faults := by
  rw [← digitsValue_eq fun c listed => marked.isHexDigit (written.2 c listed)] at large
  rw [run_item rfl (by decide) opens, scan_large marked written stops large]
  exact List.mem_cons_self

end Radix

end Lexer

open Lexer Expression

def TokenKind.base? : TokenKind → Option Nat
  | intLiteral => some 10
  | hexLiteral => some 16
  | octLiteral => some 8
  | _ => none

structure Token.HasNumeral (token : Token) : Prop where
  reads : (numeral? token).isSome
  float : token.kind = .floatLiteral → ∃ value, numeral? token = some (.float value)
  /-- A whole number that is small enough is an integer. -/
  small : ∀ base ∈ token.kind.base?, numberValue base token.lexeme < 2 ^ 63 →
    ∃ value : Int64, numeral? token = some (.int value) ∧ value.toInt = numberValue base token.lexeme
  /-- Only decimal literals can be larger; they are floats. -/
  large : ∀ base ∈ token.kind.base?, 2 ^ 63 ≤ numberValue base token.lexeme →
    token.kind = .intLiteral ∧
      numeral? token = some (.float (Binary64.ofDecimal (numberValue base token.lexeme) 0))

section Values

variable {digits : List Char} {span : Span}

theorem toBinary64?_digits (written : Digits Char.isDigit digits) :
    Decimal.toBinary64? (String.ofList digits) = some (Binary64.ofDecimal (digitsValue 10 digits) 0) := by
  have whole : digits = digits ++ ([] ++ ([] ++ [])) := by simp
  have noPower : ∀ e ∈ ([] : List Char).head?, e = 'e' ∨ e = 'E' := nofun
  conv => lhs; rw [whole]
  rw [Decimal.toBinary64?, Decimal.parse?_ofList [] written.2 (.inl ⟨rfl, rfl⟩) (List.forall_mem_nil _)
    (.inl written.1) noPower,
    Decimal.exponentValue_nil, List.append_nil]
  rfl

theorem toBinary64?_decimal {whole point power : List Char} (isWhole : ∀ c ∈ whole, c.isDigit)
    (places : Point point) (powers : Power power) (begins : whole ≠ [] ∨ point ≠ []) :
    (Decimal.toBinary64? (String.ofList (whole ++ point ++ power))).isSome := by
  have reads (mark places : List Char) (isPoint : mark = [] ∧ places = [] ∨ mark = ['.'])
      (areDigits : ∀ c ∈ places, c.isDigit) (begins : whole ≠ [] ∨ places ≠ []) :
      (Decimal.toBinary64? (String.ofList (whole ++ (mark ++ (places ++ power))))).isSome := by
    have marks : ∀ e ∈ power.head?, e = 'e' ∨ e = 'E' := by
      rcases powers with rfl | ⟨e, sign, digits, isMark, -, -, rfl⟩
      · exact nofun
      · intro d opens
        obtain rfl := Option.some.inj opens
        exact isMark
    rw [Decimal.toBinary64?, Decimal.parse?_ofList mark isWhole isPoint areDigits begins marks]
    rcases powers with rfl | ⟨e, sign, digits, isMark, isSign, written, rfl⟩
    · rfl
    · obtain ⟨exponent, found⟩ := Option.isSome_iff_exists.1
        (Decimal.exponentValue_isSome isMark isSign written.1 written.2)
      rw [found]
      rfl
  rcases places with rfl | ⟨places, written, rfl⟩
  · have same : whole ++ [] ++ power = whole ++ ([] ++ ([] ++ power)) := by simp
    rw [same]
    exact reads [] [] (.inl ⟨rfl, rfl⟩) nofun (.inl (begins.resolve_right fun filled => filled rfl))
  · have same : whole ++ '.' :: places ++ power = whole ++ (['.'] ++ (places ++ power)) := by simp
    rw [same]
    exact reads ['.'] places (.inr rfl) written.2 (.inr written.1)

theorem numeral?_small {kind : TokenKind} {base : Nat} (isBase : base ∈ kind.base?)
    (small : digitsValue base digits < 2 ^ 63) :
    numeral? ⟨kind, String.ofList digits, span⟩ = some (.int (Int64.ofNat (digitsValue base digits))) := by
  unfold numeral?
  cases kind with
  | intLiteral =>
    obtain rfl := Option.some.inj isBase
    simp only [String.toList_ofList, if_pos small]
    rfl
  | hexLiteral =>
    obtain rfl := Option.some.inj isBase
    simp only [String.toList_ofList, if_pos small]
  | octLiteral =>
    obtain rfl := Option.some.inj isBase
    simp only [String.toList_ofList, if_pos small]
  | _ => exact nomatch isBase

theorem hasNumeral_of_small {kind : TokenKind} {base : Nat} (isBase : base ∈ kind.base?)
    (written : ∀ c ∈ digits, isHexDigit c) (small : digitsValue base digits < 2 ^ 63) :
    Token.HasNumeral ⟨kind, String.ofList digits, span⟩ where
  reads := by rw [numeral?_small isBase small]; rfl
  float isFloat := by
    rw [show kind = .floatLiteral from isFloat] at isBase
    exact nomatch isBase
  small base' isBase' _ := by
    obtain rfl := Option.some.inj (isBase.symm.trans isBase')
    refine ⟨_, numeral?_small isBase small, ?_⟩
    rw [Int64.toInt_ofNat_of_lt small, digitsValue_eq written]
  large base' isBase' large := by
    obtain rfl := Option.some.inj (isBase.symm.trans isBase')
    rw [← digitsValue_eq written] at large
    exact absurd small large.not_gt

theorem numeral?_large (written : Digits Char.isDigit digits) (large : 2 ^ 63 ≤ digitsValue 10 digits) :
    numeral? ⟨.intLiteral, String.ofList digits, span⟩ =
      some (.float (Binary64.ofDecimal (digitsValue 10 digits) 0)) := by
  simp only [numeral?, String.toList_ofList, if_neg large.not_gt, toBinary64?_digits written]
  rfl

theorem Lexer.Spells.hasNumeral {kind : TokenKind} {lexeme raw : List Char}
    (spells : Spells kind lexeme raw) (number : kind.isNumber) :
    Token.HasNumeral ⟨kind, String.ofList lexeme, span⟩ := by
  cases spells with
  | whole written =>
    have hexDigits := fun c listed => isHexDigit_of_isDigit (written.2 c listed)
    by_cases small : digitsValue 10 lexeme < 2 ^ 63
    · exact hasNumeral_of_small rfl hexDigits small
    · have large := Nat.le_of_not_lt small
      refine ⟨?_, nofun, fun base isBase below => ?_, fun base isBase _ => ⟨rfl, ?_⟩⟩
      · rw [numeral?_large written large]
        rfl
      · obtain rfl := Option.some.inj isBase
        rw [← digitsValue_eq hexDigits] at below
        exact absurd below small
      · obtain rfl := Option.some.inj isBase
        rw [← digitsValue_eq hexDigits]
        exact numeral?_large written large
  | @decimal whole point power digits places powers begins more =>
    obtain ⟨value, found⟩ := Option.isSome_iff_exists.1 (toBinary64?_decimal digits places powers begins)
    have reads : numeral? ⟨.floatLiteral, String.ofList (whole ++ point ++ power), span⟩ =
        some (.float value) := by
      simp only [numeral?, found]
      rfl
    exact ⟨by rw [reads]; rfl, fun _ => ⟨value, reads⟩, nofun, nofun⟩
  | hexadecimal marked written small closed => exact hasNumeral_of_small rfl written.2 small
  | octal marked written small closed =>
    exact hasNumeral_of_small rfl
      (fun c listed => isHexDigit_of_isDigit (isDigit_of_isOctDigit (written.2 c listed))) small
  | _ => exact nomatch number

end Values

theorem lex_hasNumeral {text : String} {token : Token} (listed : token ∈ (lex text).tokens)
    (number : token.kind.isNumber) : token.HasNumeral := by
  have other {kind : TokenKind} (none : kind.isNumber = false) : token.kind ≠ kind := by
    rintro rfl
    exact nomatch none.symm.trans number
  obtain ⟨raw, spells, -⟩ := lex_covers listed (other rfl) (other rfl) (other rfl)
  have numeral : Token.HasNumeral ⟨token.kind, String.ofList token.lexeme.toList, token.span⟩ :=
    spells.hasNumeral number
  rwa [String.ofList_toList] at numeral

namespace Reader

variable {α β : Type} {state : State} {reader : Reader α}

structure State.Valued (state : State) : Prop where
  tokens : ∀ token ∈ state.tokens, token.kind.isNumber → (numeral? token).isSome
  noted : ∀ fault ∈ state.noted, fault.cause.category ≠ .invalidLiteral

theorem State.Valued.noting (valued : state.Valued) {fault : SyntaxFault}
    (other : fault.cause.category ≠ .invalidLiteral) : (state.noting fault).Valued :=
  ⟨valued.tokens, List.forall_mem_cons.2 ⟨other, valued.noted⟩⟩

theorem category_of_isOrdinary {cause : SyntaxCause} (ordinary : cause.isOrdinary) :
    cause.category ≠ .invalidLiteral := by
  cases cause with
  | invalidNumber literal => exact nomatch ordinary
  | _ => exact nofun

theorem State.Valued.kept : Kept State.Valued where
  passing valued passed noted :=
    ⟨fun token listed => valued.tokens token (passed.subset listed), noted ▸ valued.noted⟩
  stopped valued ordinary := valued.noting (category_of_isOrdinary ordinary)
  thrown {state after _} valued passes ordinary := by
    obtain ⟨later, found, suffix, noted⟩ := advance_passes state
    obtain ⟨-, rfl⟩ := EStateM.Result.ok.inj (passes.symm.trans found)
    have valued : after.Valued :=
      ⟨fun token listed => valued.tokens token (suffix.subset listed), noted ▸ valued.noted⟩
    exact valued.noting (category_of_isOrdinary ordinary)
  unread valued number none _ := by
    have reads := valued.tokens _ List.mem_cons_self number
    rw [none] at reads
    exact nomatch reads

def Values (reader : Reader α) : Prop := ∀ state : State, state.Valued → SteadyAt State.Valued reader state

theorem Steady.values (steady : Steady reader) : Values reader := steady _ State.Valued.kept

theorem Values.bind {next : α → Reader β} (values : Values reader) (rest : ∀ value, Values (next value)) :
    Values (reader >>= next) :=
  fun state valued => (values state valued).bind rest

theorem Values.map (values : Values reader) (f : α → β) : Values (f <$> reader) :=
  values.bind fun value => (Steady.pure (f value)).values

theorem Values.recovering (values : Values reader) (fallback : α) : Values (recovering reader fallback) :=
  fun state valued => (values state valued).recovering State.Valued.kept fallback

end Reader

open Reader

namespace Declaration

theorem classMembers_values {nested : Reader Node} (inner : Values nested) (className : String)
    (first : Span) (bound : Nat) : Values (classMembers nested className first bound) := by
  induction bound with
  | zero => exact (Steady.stop rfl).values
  | succ bound ih =>
    have member (kind : TokenKind) : Values (classMember nested className (bound + 1) kind) := by
      unfold classMember
      split
      · exact inner.map _
      · split
        · exact (members_steady _).values
        · exact (Steady.stop rfl).values
    refine skipSeparators_steady.values.bind fun _ => peekKind_steady.values.bind fun kind => ?_
    split
    · exact (Steady.pure _).values
    dsimp only
    split
    · exact fun state valued => valued.noting nofun
    · exact ((member kind).recovering []).bind fun found => ih.map _

theorem classDecl_values (bound : Nat) : Values (classDecl bound) := by
  induction bound with
  | zero => exact (Steady.stop rfl).values
  | succ bound ih =>
    refine (expect_steady _).values.bind fun first => expectName_steady.values.bind fun name => ?_
    refine expectEnd_steady.values.bind fun _ => (classMembers_values ih name _ _).bind fun members => ?_
    refine ((expect_steady _).bind fun _ => (expect_steady _).bind fun _ => ?_).values
    refine lastLine_steady.bind fun last => (make_steady _ _ _).bind fun decl => ?_
    exact expectEnd_steady.bind fun _ => .pure _

end Declaration

namespace ModuleText

theorem item_values (bound : Nat) : Values (item bound) := by
  refine peekKind_steady.values.bind fun kind => ?_
  dsimp only
  split
  · refine (advance_steady.bind fun _ => (expectWord_steady _).bind fun _ => ?_).values
    exact expectEnd_steady.bind fun _ => .pure _
  · split
    · exact (Declaration.classDecl_values bound).bind fun decl => (Steady.pure _).values
    · split
      · refine ((Declaration.members_steady bound).bind fun decls => ?_).values
        split
        · exact .pure _
        · exact .pure _
      · refine ((Statement.read_steady bound).bind fun loose => ?_).values
        exact expectEnd_steady.bind fun _ => .pure _

theorem items_values (bound : Nat) : Values (items bound) := by
  induction bound with
  | zero => exact (Steady.stop rfl).values
  | succ bound ih =>
    refine skipSeparators_steady.values.bind fun _ => (at?_steady _).values.bind fun isEnd => ?_
    split
    · exact (Steady.pure _).values
    · exact ((item_values _).recovering {}).bind fun first => ih.map _

end ModuleText

theorem category_of_parseModule {text name : String} {faults : List SyntaxFault}
    (fails : parseModule text name = .error faults) :
    ∀ fault ∈ faults, fault.cause.category ≠ .invalidLiteral := by
  have start : (State.start (lex text)).Valued := by
    refine ⟨fun token listed number => ?_, fun fault listed => ?_⟩
    · rw [State.start_tokens] at listed
      exact (lex_hasNumeral listed number).reads
    · unfold State.start at listed
      split at listed <;> exact nomatch listed
  have settles : Settles (fun after : State => ∀ fault ∈ after.noted, fault.cause.category ≠ .invalidLiteral)
      State.Valued (ModuleText.reader ((lex text).tokens.length + 1) name (State.start (lex text))) := by
    refine (ModuleText.items_values _ _ start).bind fun top last valued => ?_
    have quiet := (ModuleText.shape_quiet name top).bind fun root => .pure (top, root)
    exact (quiet last).mono (fun after noted => noted ▸ valued.noted) fun _ never => never.elim
  rw [parseModule_eq] at fails
  unfold parseModuleWithin at fails
  dsimp only at fails
  split at fails
  · obtain rfl := Except.error.inj fails
    refine List.forall_mem_map.2 fun fault listed => ?_
    exact nofun
  · split at fails
    · rename_i fault state stops
      rw [stops] at settles
      obtain rfl := Except.error.inj fails
      intro other listed
      refine settles.noted other ?_
      rcases List.mem_append.1 listed with earlier | last
      · exact List.mem_cons_of_mem _ (List.mem_reverse.1 earlier)
      · rw [List.mem_singleton.1 last]
        exact List.mem_cons_self
    · rename_i items root state returns
      rw [returns] at settles
      split at fails
      · obtain rfl := Except.error.inj fails
        exact fun fault listed => settles fault (List.mem_reverse.1 listed)
      · exact nomatch fails

/-- Each number of a text has its value, and the parser finds fault with none: a whole number is an
integer if it is below two to the power 63, a larger decimal one is a float, and at a larger one of another
base there is a fault of the lexer. -/
theorem lex_numerals :
    (∀ text : String, ∀ token ∈ (lex text).tokens, token.kind.isNumber → token.HasNumeral) ∧
    (∀ text name faults, parseModule text name = .error faults →
      ∀ fault ∈ faults, fault.cause.category ≠ .invalidLiteral) ∧
    ∀ (mark digits after : List Char) (base : Nat) (isDigit : Char → Bool) (cursor : Cursor)
      (atLineStart : Bool), RadixMark mark base isDigit → Digits isDigit digits →
      after.head?.all (!isDigit ·) → 2 ^ 63 ≤ numberValue base (String.ofList digits) →
      cursor.rest = '&' :: (mark ++ (digits ++ after)) →
      ⟨.numberOutOfRange (String.ofList digits), ⟨cursor.line, cursor.col, 0⟩⟩ ∈
        (run cursor atLineStart).faults :=
  ⟨fun _ _ listed number => lex_hasNumeral listed number, fun _ _ _ fails => category_of_parseModule fails,
    fun _ _ _ _ _ _ atLineStart marked written stops large opens =>
      run_large marked written stops large opens atLineStart⟩

/-- Two to the power 63 is a float in decimal digits, and a fault in hexadecimal ones. -/
theorem lex_numerals_bound :
    (∃ token ∈ (lex "9223372036854775808").tokens, token.kind = .intLiteral ∧
      numeral? token = some (.float (Binary64.ofDecimal (2 ^ 63) 0))) ∧
    ⟨.numberOutOfRange "8000000000000000", ⟨1, 1, 0⟩⟩ ∈ (lex "&H8000000000000000").faults := by
  constructor
  · let token : Token := ⟨.intLiteral, "9223372036854775808", ⟨1, 1, 19⟩⟩
    have listed : token ∈ (lex "9223372036854775808").tokens := by decide +kernel
    have value : numberValue 10 token.lexeme = 2 ^ 63 := by decide +kernel
    have large := (lex_numerals.1 _ token listed rfl).large 10 rfl value.ge
    rw [value] at large
    exact ⟨token, listed, large⟩
  · exact lex_numerals.2.2 ['H'] "8000000000000000".toList [] 16 isHexDigit
      (.start "&H8000000000000000") true (.hexadecimal (by decide)) ⟨by decide, List.all_eq_true.1 rfl⟩ rfl
      (by decide +kernel) rfl

end ScriptMigration
