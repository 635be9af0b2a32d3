import Mathlib.Data.List.Basic
import ScriptMigration.Grammar.Reader

/-! How readers go over the tokens. A reader gives no token back, and most readers pass one before they
return. What a loop or a nested construct does next is read where fewer tokens are left; so two bounds
that exceed the number of tokens left make no difference, and neither of them is used up. -/
namespace ScriptMigration.Reader

variable {α β : Type} {deep : Prop} {cost bound : Nat} {state : State}

namespace State

def tokens (state : State) : List Token := state.current :: state.rest

def left (state : State) : Nat := state.rest.length

/-- The last token is the end of the text, and where `deep` is false no bound was used up. -/
structure Sound (deep : Prop) (state : State) : Prop where
  ends : ∀ token ∈ state.tokens.getLast?, token.kind = .endOfText
  shallow : ∀ fault ∈ state.noted, fault.cause = .nestedTooDeep → deep

theorem length_tokens (state : State) : state.tokens.length = state.left + 1 := rfl

theorem Sound.more (sound : state.Sound deep) (goesOn : state.current.kind ≠ .endOfText) :
    ∃ next rest, state.rest = next :: rest := by
  cases found : state.rest with
  | nil =>
    refine absurd (sound.ends state.current ?_) goesOn
    rw [tokens, found]
    rfl
  | cons next rest => exact ⟨next, rest, rfl⟩

end State

/-- What becomes of a state. No tokens are given back, and a reader that returns has passed as many as
`cost` says. -/
structure Passes (deep : Prop) (cost : Nat) (before after : State) : Prop where
  sound : after.Sound deep
  suffix : after.tokens <:+ before.tokens
  passed : after.left + cost ≤ before.left

def Moves (deep : Prop) (cost : Nat) (before : State) :
    EStateM.Result SyntaxFault State α → Prop
  | .ok _ after => Passes deep cost before after
  | .error fault after => Passes deep 0 before after ∧ (fault.cause = .nestedTooDeep → deep)

/-- Two readers do the same at a state. -/
structure AgreesAt (deep : Prop) (cost : Nat) (state : State) (reader reader' : Reader α) :
    Prop where
  same : reader state = reader' state
  moves : Moves deep cost state (reader state)

/-- Two readers do the same wherever fewer tokens are left than `bound`. -/
def Agrees (deep : Prop) (cost bound : Nat) (reader reader' : Reader α) : Prop :=
  ∀ state, state.Sound deep → state.left < bound → AgreesAt deep cost state reader reader'

/-- A reader goes over the tokens as it should wherever fewer are left than `bound`. -/
abbrev Passing (deep : Prop) (cost bound : Nat) (reader : Reader α) : Prop :=
  Agrees deep cost bound reader reader

abbrev AgreesOn (deep : Prop) (cost bound fuel fuel' : Nat) (reader : Nat → Reader α) : Prop :=
  Agrees deep cost bound (reader fuel) (reader fuel')

namespace Passes

variable {first second third : State}

theorem refl (sound : state.Sound deep) : Passes deep 0 state state :=
  ⟨sound, List.suffix_refl _, Nat.le_refl _⟩

theorem trans {cost' : Nat} (earlier : Passes deep cost first second)
    (later : Passes deep cost' second third) : Passes deep (cost + cost') first third := by
  refine ⟨later.sound, later.suffix.trans earlier.suffix, ?_⟩
  have one := earlier.passed
  have two := later.passed
  omega

theorem cheaper {cost' : Nat} (passes : Passes deep cost first second) (less : cost' ≤ cost) :
    Passes deep cost' first second :=
  ⟨passes.sound, passes.suffix, Nat.le_trans (Nat.add_le_add_left less _) passes.passed⟩

theorem ofSuffix (sound : first.Sound deep) (suffix : second.tokens <:+ first.tokens)
    (noted : ∀ fault ∈ second.noted, fault.cause = .nestedTooDeep → deep)
    (passed : second.left + cost ≤ first.left) : Passes deep cost first second := by
  refine ⟨⟨fun token isLast => sound.ends token ?_, noted⟩, suffix, passed⟩
  obtain ⟨before, whole⟩ := suffix
  rw [← whole, List.getLast?_append, Option.mem_def.1 isLast]
  rfl

end Passes

theorem Moves.after {before middle : State} {cost' : Nat} (earlier : Passes deep cost before middle)
    {result : EStateM.Result SyntaxFault State α} (moves : Moves deep cost' middle result) :
    Moves deep (cost + cost') before result := by
  cases result with
  | ok value after => exact earlier.trans moves
  | error fault after => exact ⟨(earlier.cheaper (Nat.zero_le _)).trans moves.1, moves.2⟩

theorem Moves.cheaper {cost' : Nat} {result : EStateM.Result SyntaxFault State α}
    (moves : Moves deep cost state result) (less : cost' ≤ cost) : Moves deep cost' state result := by
  cases result with
  | ok value after => exact Passes.cheaper moves less
  | error fault after => exact moves

namespace AgreesAt

variable {reader reader' : Reader α} {next next' : α → Reader β} {cost' : Nat}

theorem cheaper (agrees : AgreesAt deep cost state reader reader') (less : cost' ≤ cost) :
    AgreesAt deep cost' state reader reader' := ⟨agrees.same, agrees.moves.cheaper less⟩

theorem bind_eq (reader : Reader α) (next : α → Reader β) (state : State) :
    (reader >>= next) state =
      match reader state with
      | .ok value after => next value after
      | .error fault after => .error fault after := by
  change EStateM.bind reader next state = _
  unfold EStateM.bind
  cases reader state <;> rfl

theorem after {value : α} {middle : State} (found : reader state = .ok value middle)
    (passes : Passes deep cost state middle)
    (rest : AgreesAt deep cost' middle (next value) (next' value)) :
    AgreesAt deep (cost + cost') state (reader >>= next) (reader >>= next') := by
  constructor
  · rw [bind_eq, bind_eq, found]
    exact rest.same
  · rw [bind_eq, found]
    exact rest.moves.after passes

theorem looks {value : α} (sound : state.Sound deep) (found : reader state = .ok value state)
    (rest : AgreesAt deep cost state (next value) (next' value)) :
    AgreesAt deep cost state (reader >>= next) (reader >>= next') :=
  (after found (.refl sound) rest).cheaper (Nat.le_of_eq (Nat.zero_add cost).symm)

theorem bind (first : AgreesAt deep cost state reader reader')
    (rest : ∀ value, Agrees deep cost' (state.left + 1 - cost) (next value) (next' value)) :
    AgreesAt deep (cost + cost') state (reader >>= next) (reader' >>= next') := by
  have same := first.same
  have moves := first.moves
  have later {value : α} {middle : State} (passes : Passes deep cost state middle) :
      AgreesAt deep cost' middle (next value) (next' value) := by
    refine rest value middle passes.sound ?_
    have passed := passes.passed
    omega
  constructor
  · rw [bind_eq, bind_eq, ← same]
    cases found : reader state with
    | error fault middle => rfl
    | ok value middle =>
      rw [found] at moves
      exact (later moves).same
  · rw [bind_eq]
    cases found : reader state with
    | error fault middle =>
      rw [found] at moves
      exact moves
    | ok value middle =>
      rw [found] at moves
      exact (later moves).moves.after moves

theorem ahead (first : AgreesAt deep 1 state reader reader')
    (rest : ∀ value, Agrees deep 0 state.left (next value) (next' value)) :
    AgreesAt deep 1 state (reader >>= next) (reader' >>= next') := first.bind rest

end AgreesAt

namespace Agrees

variable {reader reader' : Reader α} {next next' : α → Reader β} {cost' : Nat}

theorem zero : Agrees deep cost 0 reader reader' := fun _ _ none => absurd none (Nat.not_lt_zero _)

theorem restrict {bound' : Nat} (agrees : Agrees deep cost bound' reader reader')
    (fewer : bound ≤ bound') : Agrees deep cost bound reader reader' :=
  fun state sound few => agrees state sound (Nat.lt_of_lt_of_le few fewer)

theorem cheaper (agrees : Agrees deep cost bound reader reader') (less : cost' ≤ cost) :
    Agrees deep cost' bound reader reader' :=
  fun state sound few => (agrees state sound few).cheaper less

theorem free (agrees : Agrees deep cost bound reader reader') :
    Agrees deep 0 bound reader reader' := agrees.cheaper (Nat.zero_le _)

theorem step (first : Agrees deep 0 bound reader reader')
    (rest : ∀ value, Agrees deep cost bound (next value) (next' value)) :
    Agrees deep cost bound (reader >>= next) (reader' >>= next') := by
  intro state sound few
  have agrees := (first state sound few).bind fun value =>
    (rest value).restrict (Nat.succ_le_of_lt few)
  exact agrees.cheaper (Nat.le_of_eq (Nat.zero_add cost).symm)

/-- A reader that passes a token is followed by another one, where fewer are left. -/
theorem ahead (first : Agrees deep 1 (bound + 1) reader reader')
    (rest : ∀ value, Agrees deep 0 bound (next value) (next' value)) :
    Agrees deep 1 (bound + 1) (reader >>= next) (reader' >>= next') := by
  intro state sound few
  exact (first state sound few).bind fun value =>
    (rest value).restrict (Nat.le_of_lt_succ (by omega))

theorem past (first : Agrees deep 1 bound reader reader')
    (rest : ∀ value, Agrees deep 0 bound (next value) (next' value)) :
    Agrees deep 1 bound (reader >>= next) (reader' >>= next') := by
  cases bound with
  | zero => exact zero
  | succ bound => exact first.ahead fun value => (rest value).restrict (Nat.le_succ _)

theorem branch {condition : Prop} [Decidable condition] {left left' right right' : Reader α}
    (first : Agrees deep 0 bound left left') (second : Agrees deep 0 bound right right')
    (rest : ∀ value, Agrees deep cost bound (next value) (next' value)) :
    Agrees deep cost bound (if condition then left >>= next else right >>= next)
      (if condition then left' >>= next' else right' >>= next') := by
  split
  · exact first.step rest
  · exact second.step rest

theorem pure (value : α) : Passing deep 0 bound (pure value) :=
  fun _ sound _ => ⟨rfl, .refl sound⟩

theorem map (agrees : Agrees deep cost bound reader reader') (f : α → β) :
    Agrees deep cost bound (f <$> reader) (f <$> reader') := by
  intro state sound few
  exact (agrees state sound few).bind fun value => pure _

theorem throw (fault : SyntaxFault) (shallow : fault.cause = .nestedTooDeep → deep) :
    Agrees deep cost bound (throw fault : Reader α) (throw fault) :=
  fun _ sound _ => ⟨rfl, .refl sound, shallow⟩

theorem throw_step (fault : SyntaxFault) (shallow : fault.cause = .nestedTooDeep → deep) :
    Agrees deep cost bound ((MonadExcept.throw fault : Reader α) >>= next)
      (MonadExcept.throw fault >>= next') :=
  fun _ sound _ => ⟨rfl, .refl sound, shallow⟩

theorem stop (cause : SyntaxCause) (shallow : cause = .nestedTooDeep → deep) :
    Agrees deep cost bound (stop cause : Reader α) (stop cause) :=
  fun _ sound _ => ⟨rfl, .refl sound, shallow⟩

theorem stop_step (cause : SyntaxCause) (shallow : cause = .nestedTooDeep → deep) :
    Agrees deep cost bound ((Reader.stop cause : Reader α) >>= next) (Reader.stop cause >>= next') :=
  fun _ sound _ => ⟨rfl, .refl sound, shallow⟩

theorem look {reader : Reader α} (quiet : ∀ state, ∃ value, reader state = .ok value state) :
    Passing deep 0 bound reader := by
  intro state sound _
  obtain ⟨value, found⟩ := quiet state
  refine ⟨rfl, ?_⟩
  rw [found]
  exact .refl sound

end Agrees

theorem peek_agrees : Passing deep 0 bound peek := .look fun state => ⟨state.current, rfl⟩

theorem peekKind_agrees : Passing deep 0 bound peekKind :=
  .look fun state => ⟨state.current.kind, rfl⟩

theorem peekSecond_agrees : Passing deep 0 bound peekSecond := .look fun _ => ⟨_, rfl⟩

theorem line_agrees : Passing deep 0 bound line := .look fun state => ⟨state.current.span.line, rfl⟩

theorem lastLine_agrees : Passing deep 0 bound lastLine :=
  .look fun state => ⟨state.lastLine, rfl⟩

theorem at?_agrees (kind : TokenKind) : Passing deep 0 bound (at? kind) :=
  .look fun state => ⟨state.current.kind == kind, rfl⟩

theorem atWord_agrees (word : String) : Passing deep 0 bound (atWord word) :=
  .look fun state => ⟨state.current.isWord word, rfl⟩

theorem make_agrees (shape : Shape Node) (line lastLine : Nat) :
    Passing deep 0 bound (make shape line lastLine) :=
  fun _ sound _ => ⟨rfl, .ofSuffix sound (List.suffix_refl _) sound.shallow (Nat.le_refl _)⟩

theorem advance_past (sound : state.Sound deep) (goesOn : state.current.kind ≠ .endOfText) :
    ∃ after, advance state = .ok state.current after ∧ Passes deep 1 state after := by
  obtain ⟨next, rest, found⟩ := sound.more goesOn
  obtain ⟨current, rest', lastLine, noted, fresh⟩ := state
  obtain rfl : rest' = next :: rest := found
  exact ⟨_, rfl, .ofSuffix sound (List.suffix_cons _ _) sound.shallow (Nat.le_refl _)⟩

theorem advance_agrees : Passing deep 0 bound advance := by
  intro state sound _
  obtain ⟨current, rest, lastLine, noted, fresh⟩ := state
  cases rest with
  | nil => exact ⟨rfl, .refl sound⟩
  | cons next rest =>
    exact ⟨rfl, .ofSuffix sound (List.suffix_cons _ _) sound.shallow (Nat.le_succ _)⟩

/-- Before the end of the text a token is passed, and fewer are left for what follows. -/
theorem AgreesAt.advance (sound : state.Sound deep) (goesOn : state.current.kind ≠ .endOfText)
    {next next' : Token → Reader α}
    (rest : ∀ token, Agrees deep 0 state.left (next token) (next' token)) :
    AgreesAt deep 1 state (Reader.advance >>= next) (Reader.advance >>= next') := by
  obtain ⟨after, found, passes⟩ := advance_past sound goesOn
  exact .after found passes (rest _ after passes.sound passes.passed)

theorem eat_agrees (kind : TokenKind) : Passing deep 0 bound (eat kind) := by
  refine (at?_agrees kind).step fun found => ?_
  split
  · exact advance_agrees.step fun _ => .pure _
  · exact .pure _

theorem eatWord_agrees (word : String) : Passing deep 0 bound (eatWord word) := by
  refine (atWord_agrees word).step fun found => ?_
  split
  · exact advance_agrees.step fun _ => .pure _
  · exact .pure _

theorem AgreesAt.taking {look taken : Reader Bool} {value : Bool}
    (opens : taken = look >>= fun found =>
      if found then Reader.advance >>= fun _ => Pure.pure true else Pure.pure false)
    (sound : state.Sound deep) (isLook : look state = .ok value state)
    (goesOn : value → state.current.kind ≠ .endOfText) {next next' : Bool → Reader α}
    (found : Agrees deep 0 state.left (next true) (next' true))
    (other : AgreesAt deep cost state (next false) (next' false)) (cheap : cost ≤ 1) :
    AgreesAt deep cost state (taken >>= next) (taken >>= next') := by
  cases value with
  | true =>
    obtain ⟨after, passed, passes⟩ := advance_past sound (goesOn rfl)
    have isTaken : taken state = .ok true after := by
      rw [opens, bind_eq, isLook]
      dsimp only
      rw [if_pos rfl, bind_eq, passed]
      rfl
    exact (AgreesAt.after isTaken passes (found after passes.sound passes.passed)).cheaper cheap
  | false =>
    have isTaken : taken state = .ok false state := by
      rw [opens, bind_eq, isLook]
      rfl
    exact .looks sound isTaken other

theorem Agrees.eat {kind : TokenKind} (goesOn : kind ≠ .endOfText) {next next' : Bool → Reader α}
    (found : Agrees deep 0 bound (next true) (next' true))
    (other : Agrees deep cost (bound + 1) (next false) (next' false)) (cheap : cost ≤ 1) :
    Agrees deep cost (bound + 1) (Reader.eat kind >>= next) (Reader.eat kind >>= next') := by
  intro state sound few
  have isLook : at? kind state = .ok (state.current.kind == kind) state := rfl
  exact .taking rfl sound isLook (fun isKind => eq_of_beq isKind ▸ goesOn)
    (found.restrict (Nat.le_of_lt_succ few)) (other state sound few) cheap

theorem AgreesAt.advance_last (sound : state.Sound deep) (goesOn : state.current.kind ≠ .endOfText) :
    AgreesAt deep 1 state Reader.advance Reader.advance := by
  obtain ⟨after, passed, passes⟩ := advance_past sound goesOn
  refine ⟨rfl, ?_⟩
  rw [passed]
  exact passes

theorem expect_agrees {kind : TokenKind} (goesOn : kind ≠ .endOfText) :
    Passing deep 1 bound (expect kind) := by
  intro state sound few
  have isAt : at? kind state = .ok (state.current.kind == kind) state := rfl
  refine .looks sound isAt ?_
  split
  · rename_i isKind
    exact .advance_last sound (eq_of_beq isKind ▸ goesOn)
  · exact peekKind_agrees.step (fun _ => .stop _ nofun) state sound few

theorem expect_mark (mark : Mark) : Passing deep 1 bound (expect (.mark mark)) :=
  expect_agrees nofun

theorem expect_keyword (word : Keyword) :
    Passing deep 1 bound (expect (.keyword word)) := expect_agrees nofun

theorem expectWord_agrees (word : String) :
    Passing deep 1 bound (expectWord word) := by
  intro state sound few
  have isLook : atWord word state = .ok (state.current.isWord word) state := rfl
  refine .taking rfl sound isLook (fun isWord isEnd => ?_) (.pure _) ?_ (Nat.le_refl 1)
  · rw [Token.isWord, isEnd] at isWord
    exact nomatch isWord
  · exact peekKind_agrees.step (fun _ => .stop _ nofun) state sound few

theorem expectName_agrees : Passing deep 1 bound expectName := by
  intro state sound few
  have isAt : at? .identifier state = .ok (state.current.kind == .identifier) state := rfl
  refine .looks sound isAt ?_
  split
  · rename_i isName
    refine .advance sound ?_ fun token => .pure _
    rw [eq_of_beq isName]
    exact nofun
  · exact peekKind_agrees.step (fun _ => .stop _ nofun) state sound few

theorem expectAnyName_agrees : Passing deep 1 bound expectAnyName := by
  intro state sound few
  have isKind : peekKind state = .ok state.current.kind state := rfl
  refine .looks sound isKind ?_
  split
  · rename_i isName
    refine .advance_last sound fun isEnd => ?_
    rw [isEnd] at isName
    exact nomatch isName
  · exact Agrees.stop _ nofun state sound few

theorem expectEnd_agrees : Passing deep 0 bound expectEnd := by
  refine peekKind_agrees.step fun kind => ?_
  split
  · exact advance_agrees.step fun _ => .pure _
  · exact .stop _ nofun

section Skip

theorem State.skipWhile_spec (test : TokenKind → Bool) (state : State) :
    (state.skipWhile test).tokens <:+ state.tokens ∧
      (state.skipWhile test).noted = state.noted ∧
      ((state.skipWhile test).rest = [] ∨ test (state.skipWhile test).current.kind = false) := by
  have later (rest : List Token) (current : Token) (lastLine : Nat) :
      (State.skipWhile.go test state current lastLine rest).tokens <:+ current :: rest ∧
        (State.skipWhile.go test state current lastLine rest).noted = state.noted ∧
        ((State.skipWhile.go test state current lastLine rest).rest = [] ∨
          test (State.skipWhile.go test state current lastLine rest).current.kind = false) := by
    induction rest generalizing current lastLine with
    | nil => exact ⟨List.suffix_refl _, rfl, .inl rfl⟩
    | cons next rest ih =>
      unfold State.skipWhile.go
      split
      · obtain ⟨suffix, noted, ends⟩ := ih next current.span.line
        exact ⟨suffix.trans (List.suffix_cons _ _), noted, ends⟩
      · rename_i fails
        exact ⟨List.suffix_refl _, rfl, .inr (by simpa using fails)⟩
  exact later state.rest state.current state.lastLine

theorem Passes.skipWhile (sound : state.Sound deep) (test : TokenKind → Bool) :
    Passes deep 0 state (state.skipWhile test) := by
  obtain ⟨suffix, noted, _⟩ := state.skipWhile_spec test
  refine .ofSuffix sound suffix (noted ▸ sound.shallow) ?_
  have length := suffix.length_le
  rw [State.length_tokens, State.length_tokens] at length
  omega

theorem Passes.skipWhile_of_test (test : TokenKind → Bool) (sound : state.Sound deep)
    (isTest : test state.current.kind) (goesOn : state.current.kind ≠ .endOfText) :
    Passes deep 1 state (state.skipWhile test) := by
  refine { Passes.skipWhile sound test with passed := ?_ }
  obtain ⟨suffix, _, ends⟩ := state.skipWhile_spec test
  have length := suffix.length_le
  rw [State.length_tokens, State.length_tokens] at length
  rcases Nat.lt_or_ge (state.skipWhile test).left state.left with fewer | all
  · exact fewer
  -- if nothing were passed, the next token would be the same one
  have same := suffix.eq_of_length_le (by rw [State.length_tokens, State.length_tokens]; omega)
  obtain ⟨isCurrent, isRest⟩ := List.cons.inj same
  rcases ends with none | fails
  · obtain ⟨next, rest, found⟩ := sound.more goesOn
    exact nomatch found.symm.trans (isRest.symm.trans none)
  · rw [isCurrent, isTest] at fails
    exact nomatch fails

theorem skipSeparators_agrees : Passing deep 0 bound skipSeparators :=
  fun _ sound _ => ⟨rfl, .skipWhile sound _⟩

theorem Agrees.separated {next next' : Unit → Reader α}
    (rest : ∀ state, state.Sound deep → state.left < bound → state.current.kind ≠ .newline →
      AgreesAt deep cost state (next ()) (next' ())) :
    Agrees deep cost bound (skipSeparators >>= next) (skipSeparators >>= next') := by
  intro state sound few
  have passes := Passes.skipWhile sound fun kind => kind == .newline || kind == .mark .colon
  have found : skipSeparators state = .ok () (state.skipWhile fun kind =>
    kind == .newline || kind == .mark .colon) := rfl
  obtain ⟨_, _, ends⟩ := state.skipWhile_spec fun kind => kind == .newline || kind == .mark .colon
  refine (AgreesAt.after found passes (rest _ passes.sound ?_ ?_)).cheaper
    (Nat.le_of_eq (Nat.zero_add cost).symm)
  · exact Nat.lt_of_le_of_lt passes.passed few
  · intro isLine
    rcases ends with none | fails
    · have isEnd := passes.sound.ends _ (by rw [State.tokens, none]; rfl)
      exact nomatch isLine.symm.trans isEnd
    · rw [isLine] at fails
      exact nomatch fails

theorem skipLine_agrees : Passing deep 0 bound skipLine := by
  have passed : Agrees deep 0 bound (modify (·.skipWhile (· != .newline)) : Reader Unit) _ :=
    fun _ sound _ => ⟨rfl, .skipWhile sound _⟩
  exact passed.step fun _ => (eat_agrees .newline).step fun _ => .pure _

theorem skipLine_past (sound : state.Sound deep) (goesOn : state.current.kind ≠ .endOfText)
    (inLine : state.current.kind ≠ .newline) : AgreesAt deep 1 state skipLine skipLine := by
  have passes := Passes.skipWhile_of_test (· != .newline) sound (bne_iff_ne.2 inLine) goesOn
  have found : (modify (·.skipWhile (· != .newline)) : Reader Unit) state =
    .ok () (state.skipWhile (· != .newline)) := rfl
  change AgreesAt deep (1 + 0) state skipLine skipLine
  refine .after found passes ?_
  exact (eat_agrees .newline).step (fun _ => .pure ()) _ passes.sound (Nat.lt_succ_self _)

end Skip

section Recovering

variable {reader reader' : Reader α}

/-- Where a line goes on, also a reader that recovers from a fault passes a token. -/
theorem AgreesAt.recovering (sound : state.Sound deep) (goesOn : state.current.kind ≠ .endOfText)
    (inLine : state.current.kind ≠ .newline) (agrees : AgreesAt deep 1 state reader reader')
    (fallback : α) :
    AgreesAt deep 1 state (recovering reader fallback) (recovering reader' fallback) := by
  have moves := agrees.moves
  unfold Reader.recovering
  constructor
  · rw [← agrees.same]
  · cases found : reader state with
    | ok value after =>
      rw [found] at moves
      exact moves
    | error fault after =>
      rw [found] at moves
      obtain ⟨passes, shallow⟩ := moves
      have shallows := List.forall_mem_cons.2 ⟨shallow, passes.sound.shallow⟩
      have noted : Passes deep 0 state { after with noted := fault :: after.noted } :=
        .ofSuffix sound passes.suffix shallows passes.passed
      have last : Agrees deep 0 (after.left + 1) (pure fallback) (pure fallback) := .pure fallback
      rcases Nat.lt_or_ge after.left state.left with fewer | all
      · have skips := skipLine_agrees.step (fun _ => last) _ noted.sound (Nat.lt_succ_self _)
        exact skips.moves.after { noted with passed := fewer }
      · -- nothing was passed, so the reader still stands at the same token
        have same := passes.suffix.eq_of_length_le (by
          rw [State.length_tokens, State.length_tokens]; omega)
        obtain ⟨isCurrent, _⟩ := List.cons.inj same
        have skips := (skipLine_past noted.sound (isCurrent ▸ goesOn) (isCurrent ▸ inLine)).bind
          fun _ => last.restrict (Nat.sub_le _ _)
        exact skips.moves.after noted

end Recovering

section Loops

variable {ι : Type}

/-- Two bounds that exceed what is left, or one bound of which nothing is known. -/
def Bounds (deep : Prop) (bound fuel fuel' : Nat) : Prop :=
  bound ≤ fuel ∧ bound ≤ fuel' ∨ deep ∧ fuel = fuel'

theorem Bounds.pred {fuel fuel' : Nat} (bounds : Bounds deep (bound + 1) (fuel + 1) (fuel' + 1)) :
    Bounds deep bound fuel fuel' :=
  bounds.imp (And.imp Nat.le_of_succ_le_succ Nat.le_of_succ_le_succ)
    (And.imp_right Nat.succ.inj)

theorem Bounds.restrict {bound' fuel fuel' : Nat} (bounds : Bounds deep bound' fuel fuel')
    (fewer : bound ≤ bound') : Bounds deep bound fuel fuel' :=
  bounds.imp_left (And.imp (Nat.le_trans fewer) (Nat.le_trans fewer))

theorem Agrees.loop {loop loop' : Nat → ι → Reader α} (none : ∀ i, loop 0 i = exhausted)
    (none' : ∀ i, loop' 0 i = exhausted)
    (turn : ∀ {few fuel fuel'}, few < bound → Bounds deep (few + 1) (fuel + 1) (fuel' + 1) →
      (∀ i, Agrees deep cost few (loop fuel i) (loop' fuel' i)) →
      ∀ i, Agrees deep cost (few + 1) (loop (fuel + 1) i) (loop' (fuel' + 1) i))
    {fuel fuel' : Nat} (bounds : Bounds deep bound fuel fuel') (i : ι) :
    Agrees deep cost bound (loop fuel i) (loop' fuel' i) := by
  have ends {few fuel fuel' : Nat} (bounds : Bounds deep few fuel fuel') (within : few ≤ bound) (i : ι) :
      Agrees deep cost few (loop fuel i) (loop' fuel' i) := by
    induction fuel generalizing few fuel' i with
    | zero =>
      rcases bounds with ⟨few, _⟩ | ⟨isDeep, rfl⟩
      · rw [Nat.le_zero.1 few]
        exact .zero
      · rw [none, none']
        exact .stop _ fun _ => isDeep
    | succ fuel ih =>
      cases few with
      | zero => exact .zero
      | succ few =>
        cases fuel' with
        | zero =>
          rcases bounds with ⟨_, few⟩ | ⟨_, same⟩
          · exact absurd few (Nat.not_succ_le_zero _)
          · exact nomatch same
        | succ fuel' =>
          exact turn within bounds (fun i => ih bounds.pred (Nat.le_of_succ_le within) i) i
  exact ends bounds (Nat.le_refl _) i

theorem Agrees.turns {loop loop' : Nat → Reader α} (none : loop 0 = exhausted)
    (none' : loop' 0 = exhausted)
    (turn : ∀ {few fuel fuel'}, few < bound → Bounds deep (few + 1) (fuel + 1) (fuel' + 1) →
      Agrees deep cost few (loop fuel) (loop' fuel') →
      Agrees deep cost (few + 1) (loop (fuel + 1)) (loop' (fuel' + 1)))
    {fuel fuel' : Nat} (bounds : Bounds deep bound fuel fuel') :
    Agrees deep cost bound (loop fuel) (loop' fuel') :=
  @Agrees.loop α deep cost bound Unit (fun fuel _ => loop fuel) (fun fuel _ => loop' fuel)
    (fun _ => none) (fun _ => none') (fun within bounds later _ => turn within bounds (later ()))
    fuel fuel' bounds ()

def Forward (cost : Nat) (reader : Reader α) : Prop := ∀ bound, Passing True cost bound reader

/-- A turn goes on only where it has passed a token: what would be read next where no fewer tokens are
left does not matter. -/
def Advances (cost : Nat) (turn : (ι → Reader α) → Reader β) : Prop :=
  ∀ (state : State) (next next' : ι → Reader α), state.Sound True → (∀ i, Forward cost (next i)) →
    (∀ i, Forward cost (next' i)) →
    (∀ i later, later.Sound True → later.left < state.left → next i later = next' i later) →
    turn next state = turn next' state

structure Loop (cost : Nat) (loop : Nat → ι → Reader α)
    (turn : Nat → (ι → Reader α) → ι → Reader α) : Prop where
  turns : ∀ fuel i, loop (fuel + 1) i = turn fuel (loop fuel) i
  advances : ∀ fuel i, Advances cost fun next => turn fuel next i

theorem Advances.of_agrees {cost' : Nat} {turn : (ι → Reader α) → Reader β}
    (agrees : ∀ {bound next next'}, (∀ i, Agrees True cost bound (next i) (next' i)) →
      Agrees True cost' (bound + 1) (turn next) (turn next')) : Advances cost turn := by
  intro state next next' sound forward _ same
  have below (i : ι) : Agrees True cost state.left (next i) (next' i) := fun later sound few =>
    ⟨same i later sound few, (forward i _ later sound few).moves⟩
  exact (agrees below state sound (Nat.lt_succ_self _)).same

end Loops

end ScriptMigration.Reader
