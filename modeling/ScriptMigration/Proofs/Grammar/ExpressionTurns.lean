import ScriptMigration.Grammar.Expression
import ScriptMigration.Proofs.Grammar.Progress

/-! The loops of expressions, turn by turn, and the way from an expression to those inside it. -/
namespace ScriptMigration

namespace Reader

variable {α : Type} {deep : Prop} {cost bound : Nat}

def commaTurn (item : Reader α) (next : Reader (List α)) : Reader (List α) := do
  let first ← item
  if ← eat (.mark .comma) then return first :: (← next)
  return [first]

theorem commaList_succ (item : Reader α) (fuel : Nat) :
    commaList item (fuel + 1) = commaTurn item (commaList item fuel) := rfl

theorem commaTurn_agrees {item item' : Reader α} {next next' : Reader (List α)}
    (each : Agrees deep cost (bound + 1) item item') (later : Agrees deep 0 bound next next')
    (cheap : cost ≤ 1) :
    Agrees deep cost (bound + 1) (commaTurn item next) (commaTurn item' next') := by
  have rest (first : α) : Agrees deep 0 (bound + 1) (do
      if ← eat (.mark .comma) then return first :: (← next)
      return [first]) (do
      if ← eat (.mark .comma) then return first :: (← next')
      return [first]) := by
    have goesOn : TokenKind.mark .comma ≠ .endOfText := nofun
    refine .eat goesOn ?_ ?_ (Nat.zero_le 1)
    · exact later.step fun _ => .pure _
    · exact .pure _
  rcases Nat.le_one_iff_eq_zero_or_eq_one.1 cheap with rfl | rfl
  · exact each.step rest
  · exact each.past rest

theorem commaList_agrees {item item' : Reader α} (each : Agrees deep cost bound item item')
    (cheap : cost ≤ 1) {fuel fuel' : Nat} (bounds : Bounds deep bound fuel fuel') :
    Agrees deep cost bound (commaList item fuel) (commaList item' fuel') :=
  .turns rfl rfl (fun within _ later => commaTurn_agrees (each.restrict within) later.free cheap) bounds

end Reader

namespace Expression

open Reader

variable {deep : Prop} {cost bound fuel fuel' : Nat}

def typeNameTurn (next : String → Reader String) (name : String) : Reader String := do
  if ← eat (.mark .dot) then
    let part ← expectAnyName
    next (name ++ "." ++ part.lexeme)
  else return name

theorem typeNameTail_succ (fuel : Nat) :
    typeNameTail (fuel + 1) = typeNameTurn (typeNameTail fuel) := rfl

theorem typeNameTurn_agrees {next next' : String → Reader String}
    (later : ∀ name, Agrees deep 0 bound (next name) (next' name)) (name : String) :
    Agrees deep 0 (bound + 1) (typeNameTurn next name) (typeNameTurn next' name) := by
  refine (eat_agrees _).step fun found => ?_
  split
  · exact (expectAnyName_agrees.ahead fun part => later _).free
  · exact .pure _

theorem typeName_agrees (bounds : Bounds deep bound fuel fuel') :
    Agrees deep 1 bound (typeName fuel) (typeName fuel') :=
  expectAnyName_agrees.past fun first => Agrees.loop (fun _ => rfl) (fun _ => rfl)
    (fun _ _ later => typeNameTurn_agrees later) bounds first.lexeme

/-- What reads one argument. -/
abbrev argument (expr : Reader Node) : Reader Node := do
  let kind ← peekKind
  if kind == .mark .comma || kind == .mark .rightParen then make .missing (← line) else expr

variable {expr expr' : Reader Node}

theorem argument_agrees (nested : Agrees deep 0 bound expr expr') :
    Agrees deep 0 bound (argument expr) (argument expr') := by
  refine peekKind_agrees.step fun kind => ?_
  split
  · exact line_agrees.step fun line => make_agrees _ _ _
  · exact nested

theorem arguments_agrees (nested : Agrees deep 0 bound expr expr')
    (bounds : Bounds deep bound fuel fuel') :
    Agrees deep 0 bound (arguments expr fuel) (arguments expr' fuel') := by
  refine (eat_agrees _).step fun closed => ?_
  split
  · exact .pure _
  · refine (commaList_agrees (argument_agrees nested) (Nat.zero_le 1) bounds).step fun args => ?_
    exact (expect_mark _).free.step fun _ => .pure _

variable {state : State}

theorem token_at (sound : state.Sound deep) (goesOn : state.current.kind ≠ .endOfText)
    (shape : Shape Node) (line : Nat) :
    AgreesAt deep 1 state (advance >>= fun _ => make shape line)
      (advance >>= fun _ => make shape line) :=
  .advance sound goesOn fun _ => make_agrees _ _ _

theorem number_at (sound : state.Sound deep) (goesOn : state.current.kind ≠ .endOfText)
    (token : Token) (line : Nat) {number : Reader Node} (isNumber : number = (do
      let _ ← advance
      match numeral? token with
      | some value => make (.literal value) line
      | none => do
        let shape ← throw ⟨.invalidNumber token.lexeme, token.span⟩
        make shape line)) : AgreesAt deep 1 state number number := by
  subst isNumber
  refine .advance sound goesOn fun _ => ?_
  split
  · exact make_agrees _ _ _
  · exact .throw_step _ nofun

theorem primary_at (sound : state.Sound deep) (nested : Agrees deep 0 state.left expr expr')
    (bounds : Bounds deep state.left fuel fuel') :
    AgreesAt deep 1 state (primary expr fuel) (primary expr' fuel') := by
  have isToken : peek state = .ok state.current state := rfl
  refine .looks sound isToken ?_
  simp only [pure_bind]
  by_cases goesOn : state.current.kind = .endOfText
  · rw [goesOn]
    exact Agrees.stop_step _ nofun state sound (Nat.lt_succ_self _)
  split
  · exact number_at sound goesOn _ _ rfl
  · exact number_at sound goesOn _ _ rfl
  · exact number_at sound goesOn _ _ rfl
  · exact number_at sound goesOn _ _ rfl
  · exact token_at sound goesOn _ _
  · exact token_at sound goesOn _ _
  · exact token_at sound goesOn _ _
  · exact token_at sound goesOn _ _
  · exact token_at sound goesOn _ _
  · exact token_at sound goesOn _ _
  · exact token_at sound goesOn _ _
  · exact token_at sound goesOn _ _
  · refine .advance sound goesOn fun _ => nested.step fun inner => ?_
    exact (expect_mark _).free.step fun _ => make_agrees _ _ _
  · refine .advance sound goesOn fun _ => expectAnyName_agrees.free.step fun name => ?_
    exact make_agrees _ _ _
  · refine .advance sound goesOn fun _ => (typeName_agrees bounds).free.step fun name => ?_
    refine (eat_agrees _).step fun found => ?_
    split
    · exact (arguments_agrees nested bounds).step fun args => make_agrees _ _ _
    · exact make_agrees _ _ _
  · exact Agrees.stop_step _ nofun state sound (Nat.lt_succ_self _)

def suffixTurn (expr : Reader Node) (fuel : Nat) (next : Node → Reader Node) (before : Node) :
    Reader Node := do
  let token ← peek
  match token.kind with
  | .mark .dot => do
    let _ ← advance
    let name ← expectAnyName
    next (← make (.member (some before) name.lexeme) name.span.line)
  | .mark .leftParen => do
    let _ ← advance
    let args ← arguments expr fuel
    next (← make (.call true before args) token.span.line)
  | _ => return before

theorem suffixes_succ (expr : Reader Node) (fuel : Nat) :
    suffixes expr (fuel + 1) = suffixTurn expr fuel (suffixes expr fuel) := rfl

theorem suffixTurn_agrees (nested : Agrees deep 0 bound expr expr')
    (bounds : Bounds deep bound fuel fuel') {next next' : Node → Reader Node}
    (later : ∀ node, Agrees deep 0 bound (next node) (next' node)) (before : Node) :
    Agrees deep 0 (bound + 1) (suffixTurn expr fuel next before)
      (suffixTurn expr' fuel' next' before) := by
  intro state sound few
  have isToken : peek state = .ok state.current state := rfl
  refine .looks sound isToken ?_
  have within : state.left ≤ bound := Nat.le_of_lt_succ few
  by_cases goesOn : state.current.kind = .endOfText
  · rw [goesOn]
    exact Agrees.pure _ state sound few
  split
  · refine (AgreesAt.advance sound goesOn fun _ => ?_).cheaper (Nat.zero_le 1)
    refine expectAnyName_agrees.free.step fun name => (make_agrees _ _ _).step fun node => ?_
    exact (later node).restrict within
  · refine (AgreesAt.advance sound goesOn fun _ => ?_).cheaper (Nat.zero_le 1)
    refine ((arguments_agrees nested bounds).restrict within).step fun args => ?_
    exact (make_agrees _ _ _).step fun node => (later node).restrict within
  · exact Agrees.pure _ state sound few

theorem suffixes_agrees (nested : Agrees deep 0 bound expr expr')
    (bounds : Bounds deep bound fuel fuel') (before : Node) :
    Agrees deep 0 bound (suffixes expr fuel before) (suffixes expr' fuel' before) :=
  Agrees.loop (fun _ => rfl) (fun _ => rfl) (fun within bounds later =>
    suffixTurn_agrees (nested.restrict (Nat.le_of_lt within)) bounds.pred later) bounds before

theorem chain_agrees (nested : Agrees deep 0 bound expr expr')
    (bounds : Bounds deep (bound + 1) fuel fuel') :
    Agrees deep 1 (bound + 1) (chain expr fuel) (chain expr' fuel') := by
  have first : Agrees deep 1 (bound + 1) (primary expr fuel) (primary expr' fuel') :=
    fun state sound few => primary_at sound (nested.restrict (Nat.le_of_lt_succ few))
      (bounds.restrict (Nat.le_of_lt few))
  exact first.ahead fun left => suffixes_agrees nested (bounds.restrict (Nat.le_succ _)) left

variable {operand' operand'' : Nat → Reader Node}

theorem operand_agrees (nested : ∀ power, Agrees deep 0 bound (operand' power) (operand'' power))
    (bounds : Bounds deep (bound + 1) fuel fuel') :
    Agrees deep 1 (bound + 1) (operand operand' fuel) (operand operand'' fuel') := by
  intro state sound few
  have isKind : peekKind state = .ok state.current.kind state := rfl
  refine .looks sound isKind ?_
  by_cases goesOn : state.current.kind = .endOfText
  · rw [goesOn]
    exact chain_agrees (nested 0) bounds state sound few
  split
  · exact chain_agrees (nested 0) bounds state sound few
  · rename_i op _
    refine .advance sound goesOn fun token => ?_
    exact ((nested _).restrict (Nat.le_of_lt_succ few)).step fun part => make_agrees _ _ _

def operatorTurn (expr : (power : Nat) → Reader Node) (power : Nat) (next : Node → Reader Node)
    (left : Node) : Reader Node := do
  match BinaryOp.ofToken? (← peekKind) with
  | none => return left
  | some op =>
    if op.leftPower < power then return left
    let token ← advance
    let right ← expr op.rightPower
    next (← make (.binary op left right) token.span.line)

theorem operators_succ (expr : (power : Nat) → Reader Node) (power fuel : Nat) :
    operators expr power (fuel + 1) = operatorTurn expr power (operators expr power fuel) := rfl

theorem operatorTurn_agrees (nested : ∀ power, Agrees deep 0 bound (operand' power) (operand'' power))
    (power : Nat) {next next' : Node → Reader Node}
    (later : ∀ node, Agrees deep 0 bound (next node) (next' node)) (left : Node) :
    Agrees deep 0 (bound + 1) (operatorTurn operand' power next left)
      (operatorTurn operand'' power next' left) := by
  intro state sound few
  have isKind : peekKind state = .ok state.current.kind state := rfl
  refine .looks sound isKind ?_
  have within : state.left ≤ bound := Nat.le_of_lt_succ few
  by_cases goesOn : state.current.kind = .endOfText
  · rw [goesOn]
    exact Agrees.pure _ state sound few
  split
  · exact Agrees.pure _ state sound few
  · split
    · exact Agrees.pure _ state sound few
    · refine (AgreesAt.advance sound goesOn fun token => ?_).cheaper (Nat.zero_le 1)
      refine ((nested _).restrict within).step fun right => (make_agrees _ _ _).step fun node => ?_
      exact (later node).restrict within

theorem operators_agrees (nested : ∀ power, Agrees deep 0 bound (operand' power) (operand'' power))
    (power : Nat) (bounds : Bounds deep bound fuel fuel') (left : Node) :
    Agrees deep 0 bound (operators operand' power fuel left) (operators operand'' power fuel' left) :=
  Agrees.loop (fun _ => rfl) (fun _ => rfl) (fun within _ later =>
    operatorTurn_agrees (fun power => (nested power).restrict (Nat.le_of_lt within)) power later)
    bounds left

def turn (fuel : Nat) (next : (power : Nat) → Reader Node) (power : Nat) : Reader Node := do
  let left ← operand next (fuel + 1)
  operators next power (fuel + 1) left

theorem read_succ (fuel : Nat) : read (fuel + 1) = turn fuel (read fuel) := rfl

theorem turn_agrees (nested : ∀ power, Agrees deep 0 bound (operand' power) (operand'' power))
    (bounds : Bounds deep (bound + 1) (fuel + 1) (fuel' + 1)) (power : Nat) :
    Agrees deep 1 (bound + 1) (turn fuel operand' power) (turn fuel' operand'' power) :=
  (operand_agrees nested bounds).ahead fun left =>
    operators_agrees nested power (bounds.restrict (Nat.le_succ _)) left

theorem read_agrees (bounds : Bounds deep bound fuel fuel') (power : Nat) :
    Agrees deep 1 bound (read fuel power) (read fuel' power) :=
  Agrees.loop (fun _ => rfl) (fun _ => rfl) (fun _ bounds later =>
    turn_agrees (fun power => (later power).free) bounds) bounds power

theorem whole_agrees (bounds : Bounds deep bound fuel fuel') :
    Agrees deep 1 bound (whole fuel) (whole fuel') := read_agrees bounds 0

theorem target_agrees (bounds : Bounds deep bound fuel fuel') :
    Agrees deep 1 bound (target fuel) (target fuel') :=
  @Agrees.turns Node deep 1 bound target target rfl rfl
    (fun _ bounds _ => chain_agrees (read_agrees bounds.pred 0).free bounds) fuel fuel' bounds

end Expression

end ScriptMigration
