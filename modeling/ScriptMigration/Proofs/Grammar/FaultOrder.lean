import Mathlib.Data.Prod.Lex
import ScriptMigration.Proofs.Grammar.Steady

/-! Reading in the order of a text. A reader stops at the token that it has reached, or at the one that it
passed last, so each fault of a statement or a member is met no earlier in the text than those before
it. One kind of fault is not met in the order of the text: that a class has no end is found out at the
end of the text, while the fault stands where the class begins. Such faults come last, and the innermost
class is the first of them. -/
namespace ScriptMigration

namespace Span

def place (span : Span) : Nat ×ₗ Nat := toLex (span.line, span.col)

instance : Preorder Span := Preorder.lift place

theorem lt_iff {first second : Span} :
    first < second ↔ first.line < second.line ∨ first.line = second.line ∧ first.col < second.col :=
  Prod.Lex.toLex_lt_toLex

theorem line_le {first second : Span} (before : first < second) : first.line ≤ second.line :=
  (lt_iff.1 before).elim Nat.le_of_lt fun sameLine => sameLine.1.le

theorem Precedes.lt {first second : Span} (precedes : first.Precedes second) : first < second :=
  lt_iff.2 (precedes.imp_right fun sameLine => ⟨sameLine.1, sameLine.2.1⟩)

end Span

def SyntaxCause.isUnclosedClass : SyntaxCause → Bool
  | unclosedClass _ => true
  | _ => false

theorem SyntaxCause.isUnclosedClass_of_isOrdinary {cause : SyntaxCause} (ordinary : cause.isOrdinary) :
    cause.isUnclosedClass = false := by
  cases cause <;> first | rfl | exact nomatch ordinary

namespace Reader

variable {α β : Type} {low first : Span} {state : State}

namespace State

/-- The tokens come one after the other, behind `low`, and the faults are noted in the order of the
text, the latest first. -/
structure InOrder (low : Span) (state : State) : Prop where
  /-- Only the last token is the end of the text. -/
  tokens : state.tokens.Pairwise fun token later =>
    token.kind ≠ .endOfText ∧ token.span < later.span
  ends : ∀ token ∈ state.tokens.getLast?, token.kind = .endOfText
  behind : ∀ token ∈ state.tokens, low < token.span
  noted : state.noted.Pairwise fun later earlier => earlier.span ≤ later.span
  reached : ∀ fault ∈ state.noted, fault.span ≤ state.current.span
  closed : ∀ fault ∈ state.noted, fault.cause.isUnclosedClass = false

end State

def OrderlyAt (low : Span) (reader : Reader α) (state : State) : Prop :=
  Settles (State.InOrder low) (State.InOrder low) (reader state)

def Orderly (reader : Reader α) : Prop := ∀ low state, state.InOrder low → OrderlyAt low reader state

namespace State.InOrder

variable {fault : SyntaxFault}

/-- Only the tokens from the next one on and the faults matter. -/
theorem congr (inOrder : state.InOrder low) {other : State} (tokens : other.tokens = state.tokens)
    (noted : other.noted = state.noted) : other.InOrder low where
  tokens := tokens ▸ inOrder.tokens
  ends := tokens ▸ inOrder.ends
  behind := tokens ▸ inOrder.behind
  noted := noted ▸ inOrder.noted
  reached := by
    have same : other.current = state.current := (List.cons.inj tokens).1
    rw [same, noted]
    exact inOrder.reached
  closed := noted ▸ inOrder.closed

theorem suffix (inOrder : state.InOrder low) {later : State} (passed : later.tokens <:+ state.tokens)
    (noted : later.noted = state.noted) : later.InOrder low where
  tokens := inOrder.tokens.sublist passed.sublist
  ends token isLast := by
    obtain ⟨before, whole⟩ := passed
    refine inOrder.ends token ?_
    rw [← whole, List.getLast?_append, Option.mem_def.1 isLast]
    rfl
  behind token listed := inOrder.behind token (passed.subset listed)
  noted := noted ▸ inOrder.noted
  reached := by
    have isCurrent : later.current ∈ state.tokens := passed.subset List.mem_cons_self
    have notBefore : state.current.span ≤ later.current.span := by
      rcases List.mem_cons.1 isCurrent with same | among
      · rw [same]
      · exact ((List.pairwise_cons.1 inOrder.tokens).1 _ among).2.le
    rw [noted]
    exact fun fault listed => (inOrder.reached fault listed).trans notBefore
  closed := noted ▸ inOrder.closed

theorem noting (inOrder : state.InOrder low) (noClass : fault.cause.isUnclosedClass = false)
    (later : ∀ earlier ∈ state.noted, earlier.span ≤ fault.span)
    (reached : fault.span ≤ state.current.span) : (state.noting fault).InOrder low where
  tokens := inOrder.tokens
  ends := inOrder.ends
  behind := inOrder.behind
  noted := List.pairwise_cons.2 ⟨later, inOrder.noted⟩
  reached := List.forall_mem_cons.2 ⟨reached, inOrder.reached⟩
  closed := List.forall_mem_cons.2 ⟨noClass, inOrder.closed⟩

theorem stopped (inOrder : state.InOrder low) {cause : SyntaxCause}
    (noClass : cause.isUnclosedClass = false) :
    (state.noting ⟨cause, state.current.span⟩).InOrder low :=
  inOrder.noting noClass inOrder.reached le_rfl

theorem mono (inOrder : state.InOrder first) (lower : low ≤ first) : state.InOrder low where
  tokens := inOrder.tokens
  ends := inOrder.ends
  behind token listed := lower.trans_lt (inOrder.behind token listed)
  noted := inOrder.noted
  reached := inOrder.reached
  closed := inOrder.closed

end State.InOrder

structure Passed (token : Token) (state : State) : Prop where
  met : ∀ fault ∈ state.noted, fault.span ≤ token.span
  reached : token.span ≤ state.current.span

theorem advance_spec (inOrder : state.InOrder low) : ∃ after, advance state = .ok state.current after ∧
    after.InOrder low ∧ Passed state.current after ∧
    (state.current.kind ≠ .endOfText → ∀ token ∈ after.tokens, state.current.span < token.span) := by
  obtain ⟨current, rest, lastLine, noted, fresh⟩ := state
  have later := (List.pairwise_cons.1 inOrder.tokens).1
  cases rest with
  | nil =>
    refine ⟨_, rfl, inOrder, ⟨inOrder.reached, le_rfl⟩, fun goesOn => ?_⟩
    exact absurd (inOrder.ends current rfl) goesOn
  | cons next rest =>
    refine ⟨_, rfl, inOrder.suffix (List.suffix_cons _ _) rfl, ⟨inOrder.reached, ?_⟩, ?_⟩
    · exact (later next List.mem_cons_self).2.le
    · exact fun _ token listed => (later token listed).2

theorem State.InOrder.kept (low : Span) : Kept (State.InOrder low) where
  passing inOrder passed noted := inOrder.suffix passed noted
  stopped inOrder ordinary := inOrder.stopped (SyntaxCause.isUnclosedClass_of_isOrdinary ordinary)
  thrown inOrder passes ordinary := by
    obtain ⟨after, found, fits, passed, -⟩ := advance_spec inOrder
    obtain ⟨-, rfl⟩ := EStateM.Result.ok.inj (passes.symm.trans found)
    exact fits.noting (SyntaxCause.isUnclosedClass_of_isOrdinary ordinary) passed.met passed.reached
  unread inOrder _ _ passes := by
    obtain ⟨after, found, fits, passed, -⟩ := advance_spec inOrder
    obtain ⟨-, rfl⟩ := EStateM.Result.ok.inj (passes.symm.trans found)
    exact fits.noting rfl passed.met passed.reached

theorem Steady.orderly {reader : Reader α} (steady : Steady reader) : Orderly reader :=
  fun low => steady _ (State.InOrder.kept low)

variable {fault : SyntaxFault}

def Encloses (outer inner : SyntaxFault) : Prop :=
  outer.cause ≠ .nestedTooDeep → inner.cause ≠ .nestedTooDeep → outer.span < inner.span

def OpenBehind (low : Span) (fault : SyntaxFault) : Prop :=
  fault.cause ≠ .nestedTooDeep → fault.cause.isUnclosedClass ∧ low < fault.span

/-- The faults are in order, but at the end of the text some of the classes that begin behind `low` may
have been noted after them, the outer ones later. -/
structure State.EndsIn (low : Span) (state : State) (unclosed met : List SyntaxFault) : Prop where
  noted : state.noted = unclosed ++ met
  inOrder : InOrder low { state with noted := met }
  atEnd : unclosed ≠ [] → state.current.kind = .endOfText
  classes : ∀ fault ∈ unclosed, OpenBehind low fault
  nested : unclosed.Pairwise Encloses

def State.Ending (low : Span) (state : State) : Prop :=
  ∃ unclosed met, state.EndsIn low unclosed met

namespace State

theorem InOrder.ending (inOrder : state.InOrder low) : state.Ending low :=
  ⟨[], state.noted, rfl, inOrder, fun some => absurd rfl some, List.forall_mem_nil _, .nil⟩

namespace Ending

theorem inOrder (ending : state.Ending low) (goesOn : state.current.kind ≠ .endOfText) :
    state.InOrder low := by
  obtain ⟨unclosed, met, ends⟩ := ending
  cases unclosed with
  | nil => exact ends.inOrder.congr rfl ends.noted
  | cons fault unclosed => exact absurd (ends.atEnd (List.cons_ne_nil _ _)) goesOn

theorem eq_nil (ending : state.Ending low) (atEnd : state.current.kind = .endOfText) :
    state.rest = [] := by
  obtain ⟨unclosed, met, ends⟩ := ending
  refine List.eq_nil_iff_forall_not_mem.2 fun token listed => ?_
  exact ((List.pairwise_cons.1 ends.inOrder.tokens).1 token listed).1 atEnd

theorem mono (ending : state.Ending first) (lower : low ≤ first) : state.Ending low := by
  obtain ⟨unclosed, met, ends⟩ := ending
  refine ⟨unclosed, met, ends.noted, ends.inOrder.mono lower, ends.atEnd, ?_, ends.nested⟩
  exact fun fault listed shallow =>
    (ends.classes fault listed shallow).imp_right lower.trans_lt

/-- At the end of the text a class is found open around those before. -/
theorem noting (ending : state.Ending first) (lower : low ≤ first)
    (atEnd : state.current.kind = .endOfText) (isOpen : OpenBehind low fault)
    (outer : fault.cause ≠ .nestedTooDeep → fault.span ≤ first) : (state.noting fault).Ending low := by
  obtain ⟨unclosed, met, ends⟩ := ending
  refine ⟨fault :: unclosed, met, ?_, ends.inOrder.mono lower, fun _ => atEnd, ?_, ?_⟩
  · exact congrArg (fault :: ·) ends.noted
  · refine List.forall_mem_cons.2 ⟨isOpen, fun other listed shallow => ?_⟩
    exact (ends.classes other listed shallow).imp_right lower.trans_lt
  · refine List.pairwise_cons.2 ⟨fun inner listed shallow below => ?_, ends.nested⟩
    exact (outer shallow).trans_lt (ends.classes inner listed below).2

theorem exhausted (ending : state.Ending low) :
    (state.noting ⟨.nestedTooDeep, state.current.span⟩).Ending low := by
  by_cases atEnd : state.current.kind = .endOfText
  · exact ending.noting le_rfl atEnd (fun deep => absurd rfl deep) fun deep => absurd rfl deep
  · exact ((ending.inOrder atEnd).stopped rfl).ending

theorem skipWhile (ending : state.Ending low) (test : TokenKind → Bool) :
    (state.skipWhile test).Ending low := by
  by_cases atEnd : state.current.kind = .endOfText
  · have none := ending.eq_nil atEnd
    have same : state.skipWhile test = state := by
      obtain ⟨current, rest, lastLine, noted, fresh⟩ := state
      obtain rfl : rest = [] := none
      rfl
    rwa [same]
  · obtain ⟨suffix, noted, -⟩ := state.skipWhile_spec test
    exact ((ending.inOrder atEnd).suffix suffix noted).ending

theorem skipLine (ending : state.Ending low) :
    Settles (Ending low) (Ending low) (Reader.skipLine state) := by
  have skips : Settles (Ending low) (Ending low)
      ((modify (·.skipWhile (· != .newline)) : Reader Unit) state) := ending.skipWhile _
  refine skips.bind fun _ after ending => ?_
  by_cases atEnd : after.current.kind = .endOfText
  · have isAt : at? .newline after = .ok (after.current.kind == .newline) after := rfl
    rw [atEnd] at isAt
    have none : eat .newline after = .ok false after := by
      rw [eat, AgreesAt.bind_eq, isAt]
      rfl
    rw [AgreesAt.bind_eq, none]
    exact ending
  · have inOrder := ending.inOrder atEnd
    exact ((eat_steady _).bind fun _ => .pure ()).orderly low after inOrder |>.mono
      (fun _ => InOrder.ending) fun _ => InOrder.ending

end Ending

end State

def ClosesAt (low : Span) (reader : Reader α) (state : State) : Prop :=
  Settles (State.InOrder low) (State.Ending low) (reader state)

def Closes (reader : Reader α) : Prop := ∀ low state, state.InOrder low → ClosesAt low reader state

theorem OrderlyAt.closes {reader : Reader α} (orderly : OrderlyAt low reader state) :
    ClosesAt low reader state :=
  orderly.mono (fun _ inOrder => inOrder) fun _ => State.InOrder.ending

theorem Steady.closes {reader : Reader α} (steady : Steady reader) : Closes reader :=
  fun low state inOrder => (steady.orderly low state inOrder).closes

theorem Closes.bind {reader : Reader α} {next : α → Reader β} (closes : Closes reader)
    (rest : ∀ value, Closes (next value)) : Closes (reader >>= next) :=
  fun low state inOrder => (closes low state inOrder).bind fun value => rest value low

theorem ClosesAt.expect {kind : TokenKind} {next : Token → Reader α} (inOrder : state.InOrder low)
    (goesOn : kind ≠ .endOfText) (rest : ∀ after, low < state.current.span →
      after.InOrder state.current.span → ClosesAt low (next state.current) after) :
    ClosesAt low (Reader.expect kind >>= next) state := by
  have isAt : at? kind state = .ok (state.current.kind == kind) state := rfl
  rw [Reader.expect, bind_assoc, ClosesAt, AgreesAt.bind_eq, isAt]
  dsimp only
  split
  · rename_i isKind
    obtain ⟨after, found, fits, passed, behind⟩ := advance_spec inOrder
    have goesOn : state.current.kind ≠ .endOfText := by rwa [eq_of_beq isKind]
    rw [AgreesAt.bind_eq, found]
    exact rest after (inOrder.behind _ List.mem_cons_self) { fits with behind := behind goesOn }
  · exact (inOrder.stopped rfl).ending

def Quiet (reader : Reader α) : Prop :=
  ∀ state, Settles (fun after => after.noted = state.noted) (fun _ => False) (reader state)

namespace Quiet

theorem pure (value : α) : Quiet (pure value : Reader α) := fun _ => rfl

theorem make (shape : Shape Node) (line lastLine : Nat) : Quiet (make shape line lastLine) :=
  fun _ => rfl

theorem bind {reader : Reader α} {next : α → Reader β} (quiet : Quiet reader)
    (rest : ∀ value, Quiet (next value)) : Quiet (reader >>= next) :=
  fun state => (quiet state).bind fun value middle same =>
    (rest value middle).mono (fun _ noted => noted.trans same) fun _ never => never

end Quiet

/-- After a fault reading goes on with the next line, if there is one. -/
theorem Closes.recovering {reader : Reader α} (closes : Closes reader) (fallback : α)
    (inOrder : state.InOrder low) :
    Settles (State.Ending low) (State.Ending low) (recovering reader fallback state) := by
  have settles := closes low state inOrder
  unfold ClosesAt at settles
  unfold Reader.recovering
  cases found : reader state with
  | ok value after =>
    rw [found] at settles
    exact State.InOrder.ending settles
  | error fault after =>
    rw [found] at settles
    exact (State.Ending.skipLine settles).bind fun _ _ ending => ending

end Reader

open Reader

namespace Declaration

variable {low first : Span} {state : State}

abbrev classMember (nested : Reader Node) (className : String) (bound : Nat) (kind : TokenKind) :
    Reader (List Node) :=
  if kind == .keyword .kwClass then List.singleton <$> nested
  else if startsMember kind then members bound
  else stop (.expectedMember className kind)

theorem classMember_closes {nested : Reader Node} (inner : Closes nested) (className : String)
    (bound : Nat) (kind : TokenKind) : Closes (classMember nested className bound kind) := by
  unfold classMember
  split
  · exact inner.bind fun _ => (Steady.pure _).closes
  · split
    · exact (members_steady bound).closes
    · exact (Steady.stop rfl).closes

theorem classMembers_closes {nested : Reader Node} (inner : Closes nested) (className : String)
    (lower : low < first) (bound : Nat) (ending : state.Ending first) :
    ClosesAt low (classMembers nested className first bound) state := by
  induction bound generalizing state with
  | zero => exact ending.exhausted.mono lower.le
  | succ bound ih =>
    have skips : Settles (State.Ending first) (State.Ending low) (skipSeparators state) :=
      ending.skipWhile _
    refine skips.bind fun _ state ending => ?_
    have isKind : peekKind state = .ok state.current.kind state := rfl
    rw [AgreesAt.bind_eq, isKind]
    dsimp only
    split
    · rename_i isEnd
      have goesOn : state.current.kind ≠ .endOfText := by
        rw [eq_of_beq isEnd]
        exact nofun
      exact (ending.inOrder goesOn).mono lower.le
    · by_cases atEnd : state.current.kind = .endOfText
      · rw [atEnd]
        exact ending.noting lower.le atEnd (fun _ => ⟨rfl, lower⟩) fun _ => le_rfl
      · rw [beq_eq_false_iff_ne.2 atEnd]
        have recovers := (classMember_closes inner className (bound + 1) state.current.kind).recovering
          [] (ending.inOrder atEnd)
        refine (recovers.mono (fun _ same => same) fun _ ending => ending.mono lower.le).bind
          fun found state ending => (ih ending).bind fun rest state inOrder => inOrder

theorem classDecl_closes (bound : Nat) : Closes (classDecl bound) := by
  induction bound with
  | zero => exact (Steady.stop rfl).closes
  | succ bound ih =>
    intro low state inOrder
    refine .expect inOrder nofun fun after lower behind => ?_
    have before {α : Type} {reader : Reader α} (steady : Steady reader) {state' : State}
        (inOrder : state'.InOrder state.current.span) :
        Settles (State.InOrder state.current.span) (State.Ending low) (reader state') :=
      (steady.orderly _ _ inOrder).mono (fun _ same => same) fun _ stopped => (stopped.mono lower.le).ending
    refine (before expectName_steady behind).bind fun name _ behind => ?_
    refine (before expectEnd_steady behind).bind fun _ _ behind => ?_
    refine (classMembers_closes ih name lower _ behind.ending).bind fun members after inOrder => ?_
    refine ((expect_steady _).bind fun _ => (expect_steady _).bind fun _ => ?_).closes low _ inOrder
    refine lastLine_steady.bind fun last => (make_steady _ _ _).bind fun decl => ?_
    exact expectEnd_steady.bind fun _ => .pure _

end Declaration

namespace ModuleText

variable {low : Span} {state : State}

theorem item_closes (bound : Nat) : Closes (item bound) := by
  refine peekKind_steady.closes.bind fun kind => ?_
  dsimp only
  split
  · refine (advance_steady.bind fun _ => (expectWord_steady _).bind fun _ => ?_).closes
    exact expectEnd_steady.bind fun _ => .pure _
  · split
    · exact (Declaration.classDecl_closes bound).bind fun decl => (Steady.pure _).closes
    · split
      · refine ((Declaration.members_steady bound).bind fun decls => ?_).closes
        split
        · exact .pure _
        · exact .pure _
      · refine ((Statement.read_steady bound).bind fun loose => ?_).closes
        exact expectEnd_steady.bind fun _ => .pure _

theorem items_end (bound : Nat) (ending : state.Ending low) :
    Settles (State.Ending low) (State.Ending low) (items bound state) := by
  induction bound generalizing state with
  | zero => exact ending.exhausted
  | succ bound ih =>
    have skips : Settles (State.Ending low) (State.Ending low) (skipSeparators state) :=
      ending.skipWhile _
    refine skips.bind fun _ state ending => ?_
    have isAt : at? .endOfText state = .ok (state.current.kind == .endOfText) state := rfl
    rw [AgreesAt.bind_eq, isAt]
    dsimp only
    split
    · exact ending
    · rename_i isEnd
      have goesOn : state.current.kind ≠ .endOfText := fun same => isEnd (beq_iff_eq.2 same)
      refine ((item_closes (bound + 1)).recovering {} (ending.inOrder goesOn)).bind ?_
      exact fun first state ending => (ih ending).bind fun rest state ending => ending

theorem constructor?_quiet (name : String) (body : List Node) : Quiet (constructor? name body) := by
  unfold constructor?
  split
  · exact .pure _
  · exact .bind (.make _ _ _) fun block => .bind (.make _ _ _) fun constructor => .pure _

theorem shape_quiet (name : String) (top : TopLevel) : Quiet (shape name top) := by
  unfold shape
  split
  · exact .pure _
  · refine (constructor?_quiet _ _).bind fun constructor => ?_
    exact .bind (fun _ => rfl : Quiet lastLine) fun last => .make _ _ _

theorem reader_ends (bound : Nat) (name : String) (ending : state.Ending low) :
    Settles (fun after => ∃ last : State, last.Ending low ∧ after.noted = last.noted)
      (State.Ending low) (reader bound name state) := by
  refine (items_end bound ending).bind fun top last ending => ?_
  have quiet := (shape_quiet name top).bind fun root => .pure (top, root)
  exact (quiet last).mono (fun after noted => ⟨last, ending, noted⟩) fun _ never => never.elim

end ModuleText

theorem Lexer.faults_sublist (cursor : Cursor) (atLineStart : Bool) :
    ((run cursor atLineStart).faults.map LexicalFault.span).Sublist
      ((run cursor atLineStart).body.map Token.span) := by
  fun_induction run cursor atLineStart with
  | case1 => exact .slnil
  | case2 cursor atLineStart here c rest remaining found tail ih =>
    cases found.item with
    | token kind lexeme bytes => exact ih.cons _
    | lineBreak =>
      cases atLineStart with
      | true => exact ih
      | false => exact ih.cons _
    | comment text => exact ih
    | fault cause bytes => exact ih.cons_cons _

theorem Reader.State.start_inOrder (text : String) : (State.start (lex text)).InOrder ⟨0, 0, 0⟩ := by
  obtain ⟨pieces, whole, fit, reads⟩ := lex_reads text
  have begins : Text.Apart [] (Lexer.textOf pieces ++ []) := fun absurd => by cases absurd
  have places := Lexer.places_readPieces fit begins true
  have goesOn := Lexer.body_readPieces fit [] true
  rw [← reads] at places goesOn
  have noted : (State.start (lex text)).noted = [] := by
    unfold State.start
    split <;> rfl
  constructor
  · rw [start_tokens, Lexed.tokens]
    have ordered := List.pairwise_append.1 places.2
    refine List.pairwise_append.2 ⟨?_, List.pairwise_singleton _ _, fun token listed last isLast => ?_⟩
    · exact ordered.1.imp_of_mem fun first _ precedes => ⟨goesOn _ first, precedes.lt⟩
    · exact ⟨goesOn token listed, (ordered.2.2 token listed last isLast).lt⟩
  · have sound : (State.start (lex text)).Sound True := start_sound text
    exact sound.ends
  · rw [start_tokens]
    intro token listed
    have line : Text.lineOf [] = 1 := rfl
    have place := places.1 token listed
    have positive : 0 < token.span.line := by omega
    exact Span.lt_iff.2 (.inl positive)
  · rw [noted]
    exact .nil
  · rw [noted]
    exact fun fault listed => by cases listed
  · rw [noted]
    exact fun fault listed => by cases listed

/-- The faults that are met on the way through a text, and at its end those of its classes that have no
end of their own. -/
structure FaultOrder (met unclosed : List SyntaxFault) : Prop where
  onTheWay : ∀ fault ∈ met, fault.cause.isUnclosedClass = false
  rising : met.Pairwise (·.span ≤ ·.span)
  atEnd : ∀ fault ∈ unclosed, fault.cause.isUnclosedClass
  /-- The inner classes come before those around them. -/
  falling : unclosed.Pairwise fun inner outer => outer.span < inner.span

namespace FaultOrder

variable {met unclosed : List SyntaxFault}

/-- All faults are in the order of the text only if one class at most has no end, and begins no earlier
than the faults within it. -/
theorem rising_iff (order : FaultOrder met unclosed) :
    (met ++ unclosed).Pairwise (·.span ≤ ·.span) ↔
      unclosed.length ≤ 1 ∧ ∀ fault ∈ met, ∀ last ∈ unclosed, fault.span ≤ last.span := by
  have falling := order.falling
  rw [List.pairwise_append]
  match unclosed with
  | [] => simp [order.rising]
  | [last] => simp [order.rising]
  | inner :: outer :: rest =>
    have below := (List.pairwise_cons.1 falling).1 outer List.mem_cons_self
    constructor
    · rintro ⟨-, rising, -⟩
      exact absurd ((List.pairwise_cons.1 rising).1 outer List.mem_cons_self) below.not_ge
    · rintro ⟨short, -⟩
      exact absurd short (by simp)

theorem earliest (order : FaultOrder met unclosed) (filled : met ++ unclosed ≠ []) :
    ∃ first ∈ (met ++ unclosed).head?, ∃ last ∈ (met ++ unclosed).getLast?,
      ∀ fault ∈ met ++ unclosed, first.span ≤ fault.span ∨ last.span ≤ fault.span := by
  refine ⟨_, List.head_mem_head? filled, _, List.getLast_mem_getLast? filled, fun fault listed => ?_⟩
  rcases List.mem_append.1 listed with onTheWay | atEnd
  · left
    have rising := order.rising
    cases met with
    | nil => exact nomatch onTheWay
    | cons first met =>
      rcases List.mem_cons.1 onTheWay with rfl | later
      · exact le_rfl
      · exact (List.pairwise_cons.1 rising).1 fault later
  · right
    have falling := order.falling
    rcases List.eq_nil_or_concat unclosed with rfl | ⟨earlier, last, rfl⟩
    · exact nomatch atEnd
    simp only [List.concat_eq_append, ← List.append_assoc, List.getLast_concat]
    rw [List.concat_eq_append] at falling atEnd
    rcases List.mem_append.1 atEnd with inner | isLast
    · exact ((List.pairwise_append.1 falling).2.2 fault inner last List.mem_cons_self).le
    · rw [List.mem_singleton.1 isLast]

end FaultOrder

theorem Reader.State.Ending.faultOrder {low : Span} {state : State} (ending : state.Ending low)
    (shallow : ∀ fault ∈ state.noted, fault.cause ≠ .nestedTooDeep) :
    ∃ met unclosed, state.noted.reverse = met ++ unclosed ∧ FaultOrder met unclosed := by
  obtain ⟨unclosed, met, ends⟩ := ending
  rw [ends.noted] at shallow ⊢
  have shallow := fun fault listed => shallow fault (List.mem_append_left met listed)
  refine ⟨met.reverse, unclosed.reverse, List.reverse_append, ?_, ?_, ?_, ?_⟩
  · exact fun fault listed => ends.inOrder.closed fault (List.mem_reverse.1 listed)
  · exact List.pairwise_reverse.2 ends.inOrder.noted
  · exact fun fault listed => (ends.classes fault (List.mem_reverse.1 listed)
      (shallow fault (List.mem_reverse.1 listed))).1
  · refine List.pairwise_reverse.2 (ends.nested.imp_of_mem fun {outer inner} first second nested => ?_)
    exact nested (shallow outer first) (shallow inner second)

theorem Lexer.faultOrder (text : String) :
    FaultOrder ((lex text).faults.map SyntaxFault.ofLexical) [] := by
  refine ⟨fun fault listed => ?_, ?_, List.forall_mem_nil _, .nil⟩
  · obtain ⟨lexical, -, rfl⟩ := List.mem_map.1 listed
    rfl
  · have tokens := (Reader.State.start_inOrder text).tokens
    rw [State.start_tokens, Lexed.tokens] at tokens
    have spans := List.pairwise_map.2 ((List.pairwise_append.1 tokens).1.imp And.right)
    have faults := spans.sublist (faults_sublist _ _)
    exact List.pairwise_map.2 ((List.pairwise_map.1 faults).imp le_of_lt)

theorem exists_faultOrder {text name : String} {faults : List SyntaxFault}
    (fails : parseModule text name = .error faults) :
    ∃ met unclosed, faults = met ++ unclosed ∧ FaultOrder met unclosed := by
  have shallow := (parseModule_shallow fails).2
  have settles := ModuleText.reader_ends ((lex text).tokens.length + 1) name
    (State.start_inOrder text).ending
  have ordered {state : State} (ending : state.Ending ⟨0, 0, 0⟩)
      (noted : state.noted.reverse = faults) :
      ∃ met unclosed, faults = met ++ unclosed ∧ FaultOrder met unclosed := by
    rw [← noted] at shallow ⊢
    exact ending.faultOrder fun fault listed => shallow fault (List.mem_reverse.2 listed)
  rw [parseModule_eq] at fails
  unfold parseModuleWithin at fails
  dsimp only at fails
  split at fails
  · obtain rfl := Except.error.inj fails
    exact ⟨_, [], (List.append_nil _).symm, Lexer.faultOrder text⟩
  · split at fails
    · rename_i fault state stops
      rw [stops] at settles
      obtain rfl := Except.error.inj fails
      exact ordered settles List.reverse_cons
    · rename_i items root state returns
      rw [returns] at settles
      obtain ⟨last, ending, noted⟩ := settles
      split at fails
      · obtain rfl := Except.error.inj fails
        exact ordered ending (congrArg List.reverse noted.symm)
      · exact nomatch fails

/-- Apart from classes without an end the faults of a text come in its order, and those of such classes
come last, from the innermost one outwards. -/
theorem parseModule_faults {text name : String} {faults : List SyntaxFault}
    (fails : parseModule text name = .error faults) :
    ∃ met unclosed, faults = met ++ unclosed ∧ FaultOrder met unclosed ∧
      (faults.Pairwise (·.span ≤ ·.span) ↔
        unclosed.length ≤ 1 ∧ ∀ fault ∈ met, ∀ last ∈ unclosed, fault.span ≤ last.span) ∧
      ∃ first ∈ faults.head?, ∃ last ∈ faults.getLast?,
        ∀ fault ∈ faults, first.span ≤ fault.span ∨ last.span ≤ fault.span := by
  obtain ⟨met, unclosed, rfl, order⟩ := exists_faultOrder fails
  exact ⟨met, unclosed, rfl, order, order.rising_iff, order.earliest (parseModule_shallow fails).1⟩

/-- A fault inside a class that has no end comes before the fault of the class. -/
theorem parseModule_faults_unclosed : ∃ faults, parseModule "Class A\n x\n" "M" = .error faults ∧
    faults.map SyntaxFault.span = [⟨2, 2, 1⟩, ⟨1, 1, 5⟩] ∧
    ∃ met unclosed, faults = met ++ unclosed ∧ FaultOrder met unclosed ∧
      (faults.Pairwise (·.span ≤ ·.span) ↔
        unclosed.length ≤ 1 ∧ ∀ fault ∈ met, ∀ last ∈ unclosed, fault.span ≤ last.span) ∧
      ∃ first ∈ faults.head?, ∃ last ∈ faults.getLast?,
        ∀ fault ∈ faults, first.span ≤ fault.span ∨ last.span ≤ fault.span := by
  have spans : (parseModule "Class A\n x\n" "M").casesOn (·.map SyntaxFault.span) (fun _ => []) =
      [⟨2, 2, 1⟩, ⟨1, 1, 5⟩] := by decide +kernel
  cases parsed : parseModule "Class A\n x\n" "M" with
  | ok module =>
    rw [parsed] at spans
    cases spans
  | error faults =>
    rw [parsed] at spans
    exact ⟨faults, rfl, spans, parseModule_faults parsed⟩

end ScriptMigration
