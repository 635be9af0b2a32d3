import ScriptMigration.Proofs.Grammar.ExpressionTurns
import ScriptMigration.Proofs.Grammar.Grouping
import ScriptMigration.Proofs.Syntax.Rebuild

/-! Expressions as they are written. The tokens of a grouped expression, one after the other and with
no more parentheses than it has, are read as that expression. -/
namespace ScriptMigration

namespace Node

def bare (node : Node) : Node := node.mapUp fun part => .mk ⟨⟨0⟩, 0, 0, []⟩ part.shape

section Bare

variable (info : NodeInfo)

/-- A node as it is when nothing but its shape counts. -/
def blank (shape : Shape Node) : Node := .mk ⟨⟨0⟩, 0, 0, []⟩ shape

@[simp] theorem bare_literal (value : Literal) :
    (Node.mk info (.literal value)).bare = blank (.literal value) := by
  rw [bare, mapUp]
  rfl

@[simp] theorem bare_name (text : String) :
    (Node.mk info (.name text)).bare = blank (.name text) := by
  rw [bare, mapUp]
  rfl

@[simp] theorem bare_missing : (Node.mk info .missing).bare = blank .missing := by
  rw [bare, mapUp]
  rfl

@[simp] theorem bare_member (object : Option Node) (text : String) :
    (Node.mk info (.member object text)).bare = blank (.member (object.map bare) text) := by
  rw [bare, mapUp]
  cases object <;> rfl

@[simp] theorem bare_binary (op : BinaryOp) (left right : Node) :
    (Node.mk info (.binary op left right)).bare = blank (.binary op left.bare right.bare) := by
  rw [bare, mapUp]
  rfl

@[simp] theorem bare_unary (op : UnaryOp) (operand : Node) :
    (Node.mk info (.unary op operand)).bare = blank (.unary op operand.bare) := by
  rw [bare, mapUp]
  rfl

@[simp] theorem bare_paren (inner : Node) :
    (Node.mk info (.paren inner)).bare = blank (.paren inner.bare) := by
  rw [bare, mapUp]
  rfl

@[simp] theorem bare_call (parens : Bool) (callee : Node) (args : List Node) :
    (Node.mk info (.call parens callee args)).bare =
      blank (.call parens callee.bare (args.map bare)) := by
  rw [bare, mapUp]
  have same : args.attach.map (fun part => part.1.bare) = args.map bare := by simp
  rw [← same]
  rfl

@[simp] theorem bare_new (text : String) (args : List Node) :
    (Node.mk info (.new text args)).bare = blank (.new text (args.map bare)) := by
  rw [bare, mapUp]
  have same : args.attach.map (fun part => part.1.bare) = args.map bare := by simp
  rw [← same]
  rfl

end Bare

end Node

namespace Reader

variable {α β : Type} {state : State} {token : Token} {rest : List Token}

def State.Sees (state : State) (tokens : List Token) : Prop := state.current :: state.rest = tokens

theorem run_bind {reader : Reader α} {then' : α → Reader β} {value : α} {middle : State}
    (first : reader state = .ok value middle) : (reader >>= then') state = then' value middle := by
  simp only [bind, EStateM.bind, first]

theorem peek_run (sees : state.Sees (token :: rest)) : peek state = .ok token state := by
  obtain ⟨rfl, -⟩ := List.cons.inj sees
  rfl

theorem peekKind_run (sees : state.Sees (token :: rest)) : peekKind state = .ok token.kind state := by
  obtain ⟨rfl, -⟩ := List.cons.inj sees
  rfl

theorem advance_run (sees : state.Sees (token :: rest)) (more : rest ≠ []) :
    ∃ after, advance state = .ok token after ∧ after.Sees rest := by
  rcases state with ⟨current, others, lastLine, noted, fresh⟩
  obtain ⟨rfl, rfl⟩ := List.cons.inj sees
  cases others with
  | nil => exact absurd rfl more
  | cons next others => exact ⟨_, rfl, rfl⟩

theorem eat_run {kind : TokenKind} (sees : state.Sees (token :: rest)) (more : rest ≠ [])
    (isKind : token.kind = kind) :
    ∃ after, eat kind state = .ok true after ∧ after.Sees rest := by
  obtain ⟨after, passed, later⟩ := advance_run sees more
  refine ⟨after, ?_, later⟩
  have here : at? kind state = .ok true state := by
    rw [at?, run_bind (peekKind_run sees), isKind, beq_self_eq_true]
    rfl
  rw [eat, run_bind here, if_pos rfl, run_bind passed]
  rfl

theorem eat_run_of_ne {kind : TokenKind} (sees : state.Sees (token :: rest))
    (differs : token.kind ≠ kind) : eat kind state = .ok false state := by
  have here : at? kind state = .ok false state := by
    rw [at?, run_bind (peekKind_run sees), beq_eq_false_iff_ne.2 differs]
    rfl
  rw [eat, run_bind here]
  rfl

theorem expect_run {kind : TokenKind} (sees : state.Sees (token :: rest)) (more : rest ≠ [])
    (isKind : token.kind = kind) :
    ∃ after, expect kind state = .ok token after ∧ after.Sees rest := by
  obtain ⟨after, passed, later⟩ := advance_run sees more
  refine ⟨after, ?_, later⟩
  have here : at? kind state = .ok true state := by
    rw [at?, run_bind (peekKind_run sees), isKind, beq_self_eq_true]
    rfl
  rw [expect, run_bind here, if_pos rfl, passed]

theorem make_run (sees : state.Sees rest) (shape : Shape Node) (line lastLine : Nat) :
    ∃ info after, make shape line lastLine state = .ok (.mk info shape) after ∧ after.Sees rest :=
  ⟨_, _, rfl, sees⟩

end Reader

namespace Expression

open Reader

def literal? (token : Token) : Option Literal :=
  match token.kind with
  | .intLiteral | .hexLiteral | .octLiteral | .floatLiteral => numeral? token
  | .stringLiteral => some (.str token.lexeme)
  | .dateLiteral => some (.date token.lexeme)
  | .keyword .kwTrue => some (.bool true)
  | .keyword .kwFalse => some (.bool false)
  | .keyword .kwNothing => some .nothing
  | .keyword .kwNull => some .null
  | .keyword .kwEmpty => some .empty
  | _ => none

def isAnyName (token : Token) : Bool := token.kind == .identifier || token.kind.isKeyword

inductive TypeNameWritten : String → List Token → Prop where
  | first {name : Token} (isName : isAnyName name) : TypeNameWritten name.lexeme [name]
  | part {text : String} {tokens : List Token} {dot name : Token}
      (before : TypeNameWritten text tokens) (isDot : dot.kind = .mark .dot) (isName : isAnyName name) :
      TypeNameWritten (text ++ "." ++ name.lexeme) (tokens ++ [dot, name])

inductive Separated : List (List Token) → List Token → Prop where
  | none : Separated [] []
  | last (piece : List Token) : Separated [piece] piece
  | more {piece next tokens : List Token} {rest : List (List Token)} {comma : Token}
      (isComma : comma.kind = .mark .comma) (others : Separated (next :: rest) tokens) :
      Separated (piece :: next :: rest) (piece ++ comma :: tokens)

inductive Argument (written : Node → List Token → Prop) : Node → List Token → Prop where
  | missing (info : NodeInfo) : Argument written (.mk info .missing) []
  | given {arg : Node} {tokens : List Token} (isWritten : written arg tokens) :
      Argument written arg tokens

/-- The tokens of an expression in order. What a member belongs to and what is called has no operator
outside of parentheses, and a left out argument is not the only one. -/
inductive Written : Node → List Token → Prop where
  | literal {info : NodeInfo} {value : Literal} {token : Token} (spelled : literal? token = some value) :
      Written (.mk info (.literal value)) [token]
  | name {info : NodeInfo} {token : Token} (isName : token.kind = .identifier) :
      Written (.mk info (.name token.lexeme)) [token]
  | paren {info : NodeInfo} {inner : Node} {tokens : List Token} {opening closing : Token}
      (isOpening : opening.kind = .mark .leftParen) (within : Written inner tokens)
      (isClosing : closing.kind = .mark .rightParen) :
      Written (.mk info (.paren inner)) (opening :: tokens ++ [closing])
  | new {info : NodeInfo} {text : String} {args : List Node} {typeTokens tokens : List Token}
      {pieces : List (List Token)} {word opening closing : Token}
      (isWord : word.kind = .keyword .kwNew) (type : TypeNameWritten text typeTokens)
      (isOpening : opening.kind = .mark .leftParen)
      (areArguments : List.Forall₂ (Argument Written) args pieces) (separated : Separated pieces tokens)
      (notAlone : ∀ arg, args = [arg] → arg.shape ≠ .missing)
      (isClosing : closing.kind = .mark .rightParen) :
      Written (.mk info (.new text args)) (word :: typeTokens ++ opening :: tokens ++ [closing])
  | subjectMember {info : NodeInfo} {dot name : Token} (isDot : dot.kind = .mark .dot)
      (isName : isAnyName name) : Written (.mk info (.member none name.lexeme)) [dot, name]
  | member {info : NodeInfo} {object : Node} {tokens : List Token} {dot name : Token}
      (isChain : object.isChain) (before : Written object tokens) (isDot : dot.kind = .mark .dot)
      (isName : isAnyName name) :
      Written (.mk info (.member (some object) name.lexeme)) (tokens ++ [dot, name])
  | call {info : NodeInfo} {callee : Node} {args : List Node} {before tokens : List Token}
      {pieces : List (List Token)} {opening closing : Token}
      (isChain : callee.isChain) (isCallee : Written callee before)
      (isOpening : opening.kind = .mark .leftParen)
      (areArguments : List.Forall₂ (Argument Written) args pieces) (separated : Separated pieces tokens)
      (notAlone : ∀ arg, args = [arg] → arg.shape ≠ .missing)
      (isClosing : closing.kind = .mark .rightParen) :
      Written (.mk info (.call true callee args)) (before ++ opening :: tokens ++ [closing])
  | unary {info : NodeInfo} {op : UnaryOp} {operand : Node} {tokens : List Token} {sign : Token}
      (isSign : UnaryOp.ofToken? sign.kind = some op) (isOperand : Written operand tokens) :
      Written (.mk info (.unary op operand)) (sign :: tokens)
  | binary {info : NodeInfo} {op : BinaryOp} {left right : Node} {before tokens : List Token}
      {sign : Token} (isLeft : Written left before) (isSign : BinaryOp.ofToken? sign.kind = some op)
      (isRight : Written right tokens) :
      Written (.mk info (.binary op left right)) (before ++ sign :: tokens)

theorem expectAnyName_run {state : State} {name : Token} {rest : List Token}
    (sees : state.Sees (name :: rest)) (more : rest ≠ []) (isName : isAnyName name) :
    ∃ after, expectAnyName state = .ok name after ∧ after.Sees rest := by
  obtain ⟨after, passed, later⟩ := advance_run sees more
  refine ⟨after, ?_, later⟩
  rw [isAnyName] at isName
  rw [expectAnyName, run_bind (peekKind_run sees), if_pos isName, passed]

theorem typeName_steps {text : String} {tokens : List Token} (written : TypeNameWritten text tokens)
    {bound : Nat} (room : tokens.length ≤ bound) {state : State} {next : Token} {rest : List Token}
    (sees : state.Sees (tokens ++ next :: rest)) :
    ∃ after left, typeName bound state = typeNameTail left text after ∧ after.Sees (next :: rest) ∧
      bound < left + tokens.length := by
  induction written generalizing next rest with
  | first isName =>
    obtain ⟨after, named, later⟩ := expectAnyName_run sees (List.cons_ne_nil _ _) isName
    refine ⟨after, bound, ?_, later, Nat.lt_succ_self bound⟩
    rw [typeName, run_bind named]
  | @part text tokens dot name before isDot isName ih =>
    rw [List.length_append] at room
    rw [List.append_assoc] at sees
    obtain ⟨middle, left, steps, atDot, enough⟩ := ih (by omega) sees
    obtain ⟨left, rfl⟩ : ∃ less, left = less + 1 := ⟨left - 1, by omega⟩
    obtain ⟨atName, eaten, seesName⟩ := eat_run atDot (List.cons_ne_nil _ _) isDot
    obtain ⟨after, named, later⟩ := expectAnyName_run seesName (List.cons_ne_nil _ _) isName
    refine ⟨after, left, ?_, later, ?_⟩
    · rw [steps, typeNameTail, run_bind eaten, if_pos rfl, run_bind named]
    · rw [List.length_append, List.length_cons, List.length_singleton]
      omega

theorem typeName_run {text : String} {tokens : List Token} (written : TypeNameWritten text tokens)
    {bound : Nat} (room : tokens.length ≤ bound) {state : State} {next : Token} {rest : List Token}
    (sees : state.Sees (tokens ++ next :: rest)) (ends : next.kind ≠ .mark .dot) :
    ∃ after, typeName bound state = .ok text after ∧ after.Sees (next :: rest) := by
  obtain ⟨after, left, steps, later, enough⟩ := typeName_steps written room sees
  obtain ⟨left, rfl⟩ : ∃ less, left = less + 1 := ⟨left - 1, by omega⟩
  refine ⟨after, ?_, later⟩
  rw [steps, typeNameTail, run_bind (eat_run_of_ne later ends)]
  rfl

/-- The first token of an expression neither ends an argument nor, where the expression has no
operator, is one. -/
theorem Written.head {tree : Node} {tokens : List Token} (written : Written tree tokens) :
    ∃ first rest, tokens = first :: rest ∧ first.kind ≠ .mark .comma ∧
      first.kind ≠ .mark .rightParen ∧ (tree.isChain → UnaryOp.ofToken? first.kind = none) := by
  induction tree using Node.induction generalizing tokens with
  | step tree ih =>
    cases written with
    | @literal _ _ token spelled =>
      refine ⟨token, [], rfl, ?_, ?_, fun _ => ?_⟩
      · intro same
        rw [literal?, same] at spelled
        exact nomatch spelled
      · intro same
        rw [literal?, same] at spelled
        exact nomatch spelled
      · unfold literal? at spelled
        split at spelled <;> simp_all [UnaryOp.ofToken?]
    | @name _ token isName =>
      refine ⟨token, [], rfl, ?_, ?_, fun _ => ?_⟩ <;> simp [isName, UnaryOp.ofToken?]
    | @paren _ _ _ opening _ isOpening within isClosing =>
      refine ⟨opening, _, rfl, ?_, ?_, fun _ => ?_⟩ <;> simp [isOpening, UnaryOp.ofToken?]
    | @new _ _ _ _ _ _ word _ _ isWord =>
      refine ⟨word, _, rfl, ?_, ?_, fun _ => ?_⟩ <;> simp [isWord, UnaryOp.ofToken?]
    | @subjectMember _ dot _ isDot isName =>
      refine ⟨dot, _, rfl, ?_, ?_, fun _ => ?_⟩ <;> simp [isDot, UnaryOp.ofToken?]
    | @member _ object _ _ _ isChain before isDot isName =>
      obtain ⟨first, rest, rfl, noComma, noParen, noSign⟩ := ih object (List.mem_singleton_self _) before
      exact ⟨first, _, rfl, noComma, noParen, fun _ => noSign isChain⟩
    | @call _ callee _ _ _ _ _ _ isChain isCallee =>
      obtain ⟨first, rest, rfl, noComma, noParen, noSign⟩ := ih callee List.mem_cons_self isCallee
      exact ⟨first, _, rfl, noComma, noParen, fun _ => noSign isChain⟩
    | @unary _ _ _ _ sign isSign isOperand =>
      refine ⟨sign, _, rfl, ?_, ?_, fun chain => nomatch chain⟩
      · intro same
        rw [same] at isSign
        exact nomatch isSign
      · intro same
        rw [same] at isSign
        exact nomatch isSign
    | @binary _ _ left _ _ _ _ isLeft =>
      obtain ⟨first, rest, rfl, noComma, noParen, -⟩ := ih left List.mem_cons_self isLeft
      exact ⟨first, _, rfl, noComma, noParen, fun chain => nomatch chain⟩

theorem Separated.length_le {pieces : List (List Token)} {tokens : List Token}
    (separated : Separated pieces tokens) : pieces.length ≤ tokens.length + 1 := by
  induction separated with
  | none => exact Nat.zero_le _
  | last piece => exact Nat.le_add_left ..
  | more isComma others ih =>
    simp only [List.length_cons, List.length_append] at ih ⊢
    omega

/-- What may follow an operand of a power: no member or argument of it, and no operator that would be
taken into it. -/
structure Closes (tree : Node) (power : Nat) (kind : TokenKind) : Prop where
  noMember : kind ≠ .mark .dot
  noCall : kind ≠ .mark .leftParen
  ends : ∀ op, BinaryOp.ofToken? kind = some op → tree.EndsBefore op ∧ op.leftPower < power

def Reads (tree : Node) : Prop :=
  ∀ tokens, Written tree tokens → tree.Grouped → ∀ bound power, tokens.length < bound →
    tree.BindsFrom power → ∀ state next rest, state.Sees (tokens ++ next :: rest) →
    Closes tree power next.kind → ∃ node after, read bound power state = .ok node after ∧
      node.bare = tree.bare ∧ after.Sees (next :: rest)

section Arguments

variable {bound : Nat}

theorem argument_run {arg : Node} {tokens : List Token} (isArgument : Argument Written arg tokens)
    (reads : Reads arg) (grouped : arg.Grouped) (room : tokens.length < bound) {state : State}
    {next : Token} {rest : List Token} (sees : state.Sees (tokens ++ next :: rest))
    (ends : next.kind = .mark .comma ∨ next.kind = .mark .rightParen) :
    ∃ node after, argument (read bound 0) state = .ok node after ∧ node.bare = arg.bare ∧
      after.Sees (next :: rest) := by
  cases isArgument with
  | missing info =>
    have sees : state.Sees (next :: rest) := sees
    obtain ⟨made, after, isMade, later⟩ := make_run sees .missing next.span.line next.span.line
    refine ⟨.mk made .missing, after, ?_, by rw [Node.bare_missing, Node.bare_missing], later⟩
    have stops : (next.kind == .mark .comma || next.kind == .mark .rightParen) = true := by
      rcases ends with isComma | isParen
      · rw [isComma]
        rfl
      · rw [isParen]
        rfl
    have isLine : line state = .ok next.span.line state := by rw [line, run_bind (peek_run sees)]; rfl
    rw [argument, run_bind (peekKind_run sees), if_pos stops, run_bind isLine, isMade]
  | given isWritten =>
    obtain ⟨first, others, rfl, noComma, noParen, -⟩ := isWritten.head
    have closes : Closes arg 0 next.kind := by
      rcases ends with isComma | isParen
      · rw [isComma]
        exact ⟨by decide, by decide, fun _ absurd => nomatch absurd⟩
      · rw [isParen]
        exact ⟨by decide, by decide, fun _ absurd => nomatch absurd⟩
    obtain ⟨node, after, isRead, same, later⟩ := reads _ isWritten grouped bound 0 room
      (fun _ _ _ _ => Nat.zero_le _) state next rest sees closes
    refine ⟨node, after, ?_, same, later⟩
    have goesOn : (first.kind == .mark .comma || first.kind == .mark .rightParen) = false := by
      rw [beq_eq_false_iff_ne.2 noComma, beq_eq_false_iff_ne.2 noParen]
      rfl
    rw [argument, run_bind (peekKind_run sees), goesOn]
    exact isRead

theorem commaList_run {args : List Node} {pieces : List (List Token)} {tokens : List Token}
    (areArguments : List.Forall₂ (Argument Written) args pieces) (separated : Separated pieces tokens)
    (each : ∀ arg ∈ args, Reads arg ∧ arg.Grouped) (some : args ≠ []) (room : tokens.length < bound)
    {turns : Nat} (enough : args.length ≤ turns) {state : State} {closing : Token} {rest : List Token}
    (sees : state.Sees (tokens ++ closing :: rest)) (isClosing : closing.kind = .mark .rightParen) :
    ∃ nodes after, commaList (argument (read bound 0)) turns state = .ok nodes after ∧
      nodes.map Node.bare = args.map Node.bare ∧ after.Sees (closing :: rest) := by
  induction areArguments generalizing tokens turns state with
  | nil => exact absurd rfl some
  | @cons arg piece args pieces isArgument others ih =>
    obtain ⟨turns, rfl⟩ : ∃ less, turns = less + 1 := ⟨turns - 1, by rw [List.length_cons] at enough; omega⟩
    obtain ⟨reads, grouped⟩ := each arg List.mem_cons_self
    cases separated with
    | last =>
      cases others
      obtain ⟨node, after, isRead, same, later⟩ := argument_run isArgument reads grouped room sees
        (.inr isClosing)
      refine ⟨[node], after, ?_, by rw [List.map_singleton, List.map_singleton, same], later⟩
      have noComma : closing.kind ≠ .mark .comma := by rw [isClosing]; decide
      rw [commaList, run_bind isRead, run_bind (eat_run_of_ne later noComma)]
      rfl
    | @more _ _ tokens _ comma isComma separated =>
      rw [List.length_append, List.length_cons] at room
      rw [List.append_assoc, List.cons_append] at sees
      have pieceRoom : piece.length < bound := by omega
      obtain ⟨node, middle, isRead, same, atComma⟩ := argument_run isArgument reads grouped
        pieceRoom sees (.inl isComma)
      obtain ⟨start, eaten, seesRest⟩ := eat_run atComma (by simp) isComma
      obtain ⟨nodes, after, areRead, sameRest, later⟩ := ih separated
        (fun other inside => each other (List.mem_cons_of_mem _ inside))
        (by rintro rfl; cases others) (by omega)
        (Nat.le_of_succ_le_succ enough) seesRest
      refine ⟨node :: nodes, after, ?_, by rw [List.map_cons, List.map_cons, same, sameRest], later⟩
      rw [commaList, run_bind isRead, run_bind eaten, if_pos rfl, run_bind areRead]
      rfl

theorem exists_first {arg : Node} {args : List Node} {pieces : List (List Token)} {tokens : List Token}
    (areArguments : List.Forall₂ (Argument Written) (arg :: args) pieces)
    (separated : Separated pieces tokens)
    (notAlone : ∀ other, arg :: args = [other] → other.shape ≠ .missing) (ends : List Token) :
    ∃ first rest, tokens ++ ends = first :: rest ∧ first.kind ≠ .mark .rightParen := by
  cases areArguments with
  | cons isArgument others =>
    cases isArgument with
    | missing info =>
      cases separated with
      | last =>
        cases others
        exact absurd rfl (notAlone _ rfl)
      | more isComma => exact ⟨_, _, rfl, by rw [isComma]; decide⟩
    | given isWritten =>
      obtain ⟨first, rest, rfl, -, noParen, -⟩ := isWritten.head
      cases separated with
      | last => exact ⟨first, _, rfl, noParen⟩
      | more => exact ⟨first, _, rfl, noParen⟩

theorem arguments_run {args : List Node} {pieces : List (List Token)} {tokens : List Token}
    (areArguments : List.Forall₂ (Argument Written) args pieces) (separated : Separated pieces tokens)
    (notAlone : ∀ arg, args = [arg] → arg.shape ≠ .missing)
    (each : ∀ arg ∈ args, Reads arg ∧ arg.Grouped) (room : tokens.length < bound)
    {turns : Nat} (enough : tokens.length < turns) {state : State} {closing next : Token}
    {rest : List Token} (sees : state.Sees (tokens ++ closing :: next :: rest))
    (isClosing : closing.kind = .mark .rightParen) :
    ∃ nodes after, arguments (read bound 0) turns state = .ok nodes after ∧
      nodes.map Node.bare = args.map Node.bare ∧ after.Sees (next :: rest) := by
  cases areArguments with
  | nil =>
    cases separated
    obtain ⟨after, eaten, later⟩ := eat_run sees (List.cons_ne_nil _ _) isClosing
    refine ⟨[], after, ?_, rfl, later⟩
    rw [arguments, run_bind eaten, if_pos rfl]
    rfl
  | @cons arg piece args pieces isArgument others =>
    have count : (arg :: args).length ≤ turns := by
      have few := separated.length_le
      rw [(List.Forall₂.cons isArgument others).length_eq]
      omega
    obtain ⟨nodes, middle, areRead, same, atClosing⟩ := commaList_run
      (.cons isArgument others) separated each (List.cons_ne_nil _ _) room count sees isClosing
    obtain ⟨after, closed, later⟩ := expect_run atClosing (List.cons_ne_nil _ _) isClosing
    refine ⟨nodes, after, ?_, same, later⟩
    obtain ⟨first, remaining, split, noParen⟩ := exists_first (.cons isArgument others) separated
      notAlone (closing :: next :: rest)
    have open' := eat_run_of_ne (split ▸ sees) noParen
    have unfolds : arguments (read bound 0) turns = (do
        if ← eat (.mark .rightParen) then return []
        let args ← commaList (argument (read bound 0)) turns
        let _ ← expect (.mark .rightParen)
        return args) := rfl
    rw [unfolds, run_bind open', if_neg Bool.false_ne_true, run_bind areRead, run_bind closed]
    rfl

end Arguments

section Primary

variable {expr : Reader Node} {turns : Nat} {state : State} {token : Token} {rest : List Token}
  (sees : state.Sees (token :: rest)) (more : rest ≠ [])

include sees more

theorem primary_literal {value : Literal} (spelled : literal? token = some value) :
    ∃ info after, primary expr turns state = .ok (.mk info (.literal value)) after ∧
      after.Sees rest := by
  obtain ⟨middle, passed, seesNext⟩ := advance_run sees more
  obtain ⟨info, after, made, later⟩ := make_run seesNext (.literal value) token.span.line token.span.line
  refine ⟨info, after, ?_, later⟩
  rw [primary, run_bind (peek_run sees)]
  have given (numeral : numeral? token = some value) :
      number token token.span.line state = .ok (.mk info (.literal value)) after := by
    rw [number, run_bind passed, numeral]
    exact made
  unfold literal? at spelled
  split at spelled
  iterate 4
    · rename_i isKind
      rw [isKind]
      exact given spelled
  iterate 7
    · rename_i isKind
      obtain rfl := Option.some.inj spelled
      rw [isKind]
      exact (run_bind passed).trans made
  · cases spelled

theorem primary_name (isName : token.kind = .identifier) :
    ∃ info after, primary expr turns state = .ok (.mk info (.name token.lexeme)) after ∧
      after.Sees rest := by
  obtain ⟨middle, passed, seesNext⟩ := advance_run sees more
  obtain ⟨info, after, made, later⟩ := make_run seesNext (.name token.lexeme) token.span.line
    token.span.line
  refine ⟨info, after, ?_, later⟩
  rw [primary, run_bind (peek_run sees), isName]
  exact (run_bind passed).trans made

end Primary

def Chains (tree : Node) : Prop :=
  ∀ tokens, Written tree tokens → tree.Grouped → ∀ bound turns, tokens.length ≤ bound →
    tokens.length < turns → ∀ state next rest, state.Sees (tokens ++ next :: rest) →
    ∃ node after left, chain (read bound 0) turns state = suffixes (read bound 0) left node after ∧
      node.bare = tree.bare ∧ after.Sees (next :: rest) ∧ turns < left + tokens.length

theorem grouped_of_part {tree part : Node} (grouped : tree.Grouped) (inside : part ∈ tree.children) :
    part.Grouped := (Node.grouped_iff.1 grouped).2 part inside

section Chains

variable {info : NodeInfo}

theorem chain_of_primary {bound turns : Nat} {state after : State} {node : Node}
    (isRead : primary (read bound 0) turns state = .ok node after) :
    chain (read bound 0) turns state = suffixes (read bound 0) turns node after := run_bind isRead

theorem chains_literal (value : Literal) : Chains (.mk info (.literal value)) := by
  intro tokens written grouped bound turns room enough state next rest sees
  cases written with
  | literal spelled =>
    obtain ⟨info, after, isRead, later⟩ := primary_literal sees (List.cons_ne_nil _ _) spelled
    exact ⟨_, after, turns, chain_of_primary isRead, by simp, later, Nat.lt_succ_self _⟩

theorem chains_name (text : String) : Chains (.mk info (.name text)) := by
  intro tokens written grouped bound turns room enough state next rest sees
  cases written with
  | name isName =>
    obtain ⟨info, after, isRead, later⟩ := primary_name sees (List.cons_ne_nil _ _) isName
    exact ⟨_, after, turns, chain_of_primary isRead, by simp, later, Nat.lt_succ_self _⟩

theorem chains_paren {inner : Node} (reads : Reads inner) : Chains (.mk info (.paren inner)) := by
  intro tokens written grouped bound turns room enough state next rest sees
  cases written with
  | @paren _ _ tokens opening closing isOpening within isClosing =>
    simp only [List.length_append, List.length_cons, List.length_nil, List.cons_append,
      List.append_assoc, List.nil_append] at room enough sees
    obtain ⟨inside, passed, seesInner⟩ := advance_run sees (by simp)
    have closes : Closes inner 0 closing.kind := by
      rw [isClosing]
      exact ⟨by decide, by decide, fun _ absurd => nomatch absurd⟩
    obtain ⟨node, middle, isRead, same, atClosing⟩ := reads _ within
      (grouped_of_part grouped (List.mem_singleton_self _)) bound 0 (by omega)
      (fun _ _ _ _ => Nat.zero_le _) inside closing (next :: rest) seesInner closes
    obtain ⟨outside, closed, seesNext⟩ := expect_run atClosing (List.cons_ne_nil _ _) isClosing
    obtain ⟨info, after, made, later⟩ := make_run seesNext (.paren node) opening.span.line
      opening.span.line
    refine ⟨.mk info (.paren node), after, turns, chain_of_primary ?_, by simp [same], later, by simp⟩
    rw [primary, run_bind (peek_run sees), isOpening]
    exact (run_bind passed).trans ((run_bind isRead).trans ((run_bind closed).trans made))

theorem chains_new {text : String} {args : List Node} (reads : ∀ arg ∈ args, Reads arg) :
    Chains (.mk info (.new text args)) := by
  intro tokens written grouped bound turns room enough state next rest sees
  cases written with
  | @new _ _ _ typeTokens tokens pieces word opening closing isWord type isOpening areArguments
      separated notAlone isClosing =>
    simp only [List.length_append, List.length_cons, List.length_nil, List.cons_append,
      List.append_assoc, List.nil_append] at room enough sees
    have noDot : opening.kind ≠ .mark .dot := by
      rw [isOpening]
      decide
    obtain ⟨atType, passed, seesType⟩ := advance_run sees (by simp)
    obtain ⟨atOpening, typed, seesOpening⟩ := typeName_run type (by omega : _ ≤ turns) seesType noDot
    obtain ⟨inside, opened, seesArgs⟩ := eat_run seesOpening (by simp) isOpening
    obtain ⟨nodes, middle, areRead, same, seesNext⟩ := arguments_run areArguments separated notAlone
      (fun arg among => ⟨reads arg among, grouped_of_part grouped among⟩) (by omega : _ < bound)
      (by omega : _ < turns) seesArgs isClosing
    obtain ⟨info, after, made, later⟩ := make_run seesNext (.new text nodes) word.span.line
      word.span.line
    refine ⟨.mk info (.new text nodes), after, turns, chain_of_primary ?_, by simp [same], later, by simp⟩
    rw [primary, run_bind (peek_run sees), isWord]
    refine (run_bind passed).trans ((run_bind typed).trans ((run_bind opened).trans ?_))
    exact (run_bind areRead).trans made

theorem chains_subjectMember (text : String) : Chains (.mk info (.member none text)) := by
  intro tokens written grouped bound turns room enough state next rest sees
  cases written with
  | @subjectMember _ dot name isDot isName =>
    obtain ⟨atName, passed, seesName⟩ := advance_run sees (by simp)
    obtain ⟨middle, named, seesNext⟩ := expectAnyName_run seesName (List.cons_ne_nil _ _) isName
    obtain ⟨info, after, made, later⟩ := make_run seesNext (.member none name.lexeme) dot.span.line
      dot.span.line
    refine ⟨.mk info (.member none name.lexeme), after, turns, chain_of_primary ?_, by simp, later,
      by simp⟩
    rw [primary, run_bind (peek_run sees), isDot]
    exact (run_bind passed).trans ((run_bind named).trans made)

theorem chains_member {object : Node} {text : String} (chains : object.isChain → Chains object) :
    Chains (.mk info (.member (some object) text)) := by
  intro tokens written grouped bound turns room enough state next rest sees
  cases written with
  | @member _ _ tokens dot name isObject before isDot isName =>
    simp only [List.length_append, List.length_cons, List.length_nil, List.append_assoc,
      List.cons_append, List.nil_append] at room enough sees
    obtain ⟨node, atDot, left, steps, same, seesDot, much⟩ := chains isObject _ before
      (grouped_of_part grouped (List.mem_singleton_self _)) bound turns (by omega) (by omega) state dot
      (name :: next :: rest) sees
    obtain ⟨left, rfl⟩ : ∃ less, left = less + 1 := ⟨left - 1, by omega⟩
    obtain ⟨atName, passed, seesName⟩ := advance_run seesDot (by simp)
    obtain ⟨middle, named, seesNext⟩ := expectAnyName_run seesName (List.cons_ne_nil _ _) isName
    obtain ⟨info, after, made, later⟩ := make_run seesNext (.member (some node) name.lexeme)
      name.span.line name.span.line
    refine ⟨.mk info (.member (some node) name.lexeme), after, left, ?_, by simp [same], later, ?_⟩
    · rw [steps, suffixes, run_bind (peek_run seesDot), isDot]
      exact (run_bind passed).trans ((run_bind named).trans (run_bind made))
    · simp only [List.length_append, List.length_cons, List.length_nil]
      omega

theorem chains_call {parens : Bool} {callee : Node} {args : List Node}
    (chains : callee.isChain → Chains callee) (reads : ∀ arg ∈ args, Reads arg) :
    Chains (.mk info (.call parens callee args)) := by
  intro tokens written grouped bound turns room enough state next rest sees
  cases written with
  | @call _ _ _ before tokens pieces opening closing isCallee isWritten isOpening areArguments separated
      notAlone isClosing =>
    simp only [List.length_append, List.length_cons, List.length_nil, List.append_assoc,
      List.cons_append, List.nil_append] at room enough sees
    obtain ⟨node, atOpening, left, steps, same, seesOpening, much⟩ := chains isCallee _ isWritten
      (grouped_of_part grouped List.mem_cons_self) bound turns (by omega) (by omega) state opening _ sees
    obtain ⟨left, rfl⟩ : ∃ less, left = less + 1 := ⟨left - 1, by omega⟩
    obtain ⟨inside, passed, seesArgs⟩ := advance_run seesOpening (by simp)
    obtain ⟨nodes, middle, areRead, sameArgs, seesNext⟩ := arguments_run areArguments separated notAlone
      (fun arg among => ⟨reads arg among, grouped_of_part grouped (List.mem_cons_of_mem _ among)⟩)
      (by omega : _ < bound) (by omega : _ < left) seesArgs isClosing
    obtain ⟨info, after, made, later⟩ := make_run seesNext (.call true node nodes) opening.span.line
      opening.span.line
    refine ⟨.mk info (.call true node nodes), after, left, ?_, by simp [same, sameArgs], later, ?_⟩
    · rw [steps, suffixes, run_bind (peek_run seesOpening), isOpening]
      exact (run_bind passed).trans ((run_bind areRead).trans (run_bind made))
    · simp only [List.length_append, List.length_cons, List.length_nil]
      omega

/-- An expression without an operator is read from its first token on, and then member by member and
call by call. -/
theorem chains_of_parts {tree : Node}
    (parts : ∀ part ∈ tree.children, Reads part ∧ (part.isChain → Chains part))
    (isChain : tree.isChain) : Chains tree := by
  rcases tree with ⟨info, shape⟩
  cases shape with
  | literal value => exact chains_literal value
  | name text => exact chains_name text
  | paren inner => exact chains_paren (parts inner (List.mem_singleton_self _)).1
  | new text args => exact chains_new fun arg among => (parts arg among).1
  | member object text =>
    cases object with
    | none => exact chains_subjectMember text
    | some object => exact chains_member (parts object (List.mem_singleton_self _)).2
  | call parens callee args =>
    exact chains_call (parts callee List.mem_cons_self).2 fun arg among =>
      (parts arg (List.mem_cons_of_mem _ among)).1
  | _ => exact nomatch isChain

end Chains

theorem suffixes_run {expr : Reader Node} {left : Nat} {node : Node} {state : State} {next : Token}
    {rest : List Token} (sees : state.Sees (next :: rest)) (noMember : next.kind ≠ .mark .dot)
    (noCall : next.kind ≠ .mark .leftParen) :
    suffixes expr (left + 1) node state = .ok node state := by
  rw [suffixes, run_bind (peek_run sees)]
  refine congrFun (?_ : _ = (pure node : Reader Node)) state
  split
  · exact absurd ‹_› noMember
  · exact absurd ‹_› noCall
  · rfl

def Spans (tree : Node) : Prop :=
  ∀ tokens, Written tree tokens → tree.Grouped → ∀ bound power, tokens.length ≤ bound →
    tree.BindsFrom power → ∀ state next rest, state.Sees (tokens ++ next :: rest) →
    next.kind ≠ .mark .dot → next.kind ≠ .mark .leftParen →
    (∀ op, BinaryOp.ofToken? next.kind = some op → tree.EndsBefore op) →
    ∃ node after left, read (bound + 1) power state = operators (read bound) power left node after ∧
      node.bare = tree.bare ∧ after.Sees (next :: rest) ∧ bound + 1 < left + tokens.length

theorem reads_of_spans {tree : Node} (spans : Spans tree) : Reads tree := by
  intro tokens written grouped bound power room binds state next rest sees closes
  obtain ⟨bound, rfl⟩ : ∃ less, bound = less + 1 := ⟨bound - 1, by omega⟩
  obtain ⟨node, after, left, steps, same, later, much⟩ := spans tokens written grouped bound power
    (by omega) binds state next rest sees closes.noMember closes.noCall
    fun op isOp => (closes.ends op isOp).1
  obtain ⟨left, rfl⟩ : ∃ less, left = less + 1 := ⟨left - 1, by omega⟩
  refine ⟨node, after, ?_, same, later⟩
  rw [steps, operators, run_bind (peekKind_run later)]
  cases isOp : BinaryOp.ofToken? next.kind with
  | none => rfl
  | some op =>
    dsimp only
    rw [if_pos (closes.ends op isOp).2]
    rfl

section Spans

variable {info : NodeInfo}

theorem read_of_operand {bound power : Nat} {state after : State} {node : Node}
    (isRead : operand (read bound) (bound + 1) state = .ok node after) :
    read (bound + 1) power state = operators (read bound) power (bound + 1) node after :=
  run_bind isRead

theorem spans_of_chains {tree : Node} (isChain : tree.isChain) (chains : Chains tree) : Spans tree := by
  intro tokens written grouped bound power room binds state next rest sees noMember noCall ends
  obtain ⟨node, after, left, steps, same, later, much⟩ := chains tokens written grouped bound (bound + 1)
    room (by omega) state next rest sees
  obtain ⟨left, rfl⟩ : ∃ less, left = less + 1 := ⟨left - 1, by omega⟩
  obtain ⟨first, others, rfl, -, -, noSign⟩ := written.head
  refine ⟨node, after, bound + 1, read_of_operand ?_, same, later, by simp⟩
  rw [operand, run_bind (peekKind_run sees), noSign isChain]
  dsimp only
  rw [steps, suffixes_run later noMember noCall]

theorem spans_unary {op : UnaryOp} {part : Node} (spans : Spans part) :
    Spans (.mk info (.unary op part)) := by
  intro tokens written grouped bound power room binds state next rest sees noMember noCall ends
  cases written with
  | @unary _ _ _ tokens sign isSign isOperand =>
    obtain ⟨atOperand, passed, seesOperand⟩ := advance_run sees (by simp)
    have powers := (Node.grouped_iff.1 grouped).1.operand op part rfl
    have closes : Closes part op.operandPower next.kind :=
      ⟨noMember, noCall, fun follows isOp => (ends follows isOp).operand powers⟩
    rw [List.length_cons] at room
    obtain ⟨node, middle, isRead, same, seesNext⟩ := reads_of_spans spans tokens isOperand
      (grouped_of_part grouped (List.mem_singleton_self _)) bound op.operandPower (by omega) powers
      atOperand next rest seesOperand closes
    obtain ⟨info, after, made, later⟩ := make_run seesNext (.unary op node) sign.span.line
      sign.span.line
    refine ⟨.mk info (.unary op node), after, bound + 1, read_of_operand ?_, by simp [same], later,
      by simp⟩
    rw [operand, run_bind (peekKind_run sees), isSign]
    exact (run_bind passed).trans ((run_bind isRead).trans made)

/-- The left operand is read up to its operator, which is taken since it is tight enough; the right
operand ends where the whole does. -/
theorem spans_binary {op : BinaryOp} {left right : Node} (leftSpans : Spans left)
    (rightSpans : Spans right) : Spans (.mk info (.binary op left right)) := by
  intro tokens written grouped bound power room binds state next rest sees noMember noCall ends
  cases written with
  | @binary _ _ _ _ before tokens sign isLeft isSign isRight =>
    have leftEnds := (Node.grouped_iff.1 grouped).1.left op left right rfl
    have rightBinds := (Node.grouped_iff.1 grouped).1.right op left right rfl
    have tight : power ≤ op.leftPower := binds op left right rfl
    have leftBinds : left.BindsFrom power := fun inner first second same =>
      Nat.le_trans tight (leftEnds.binary inner first second same)
    have signDiffers {kind : TokenKind} (noSign : BinaryOp.ofToken? kind = none) : sign.kind ≠ kind := by
      rintro rfl
      exact nomatch isSign.symm.trans noSign
    simp only [List.length_append, List.length_cons, List.append_assoc, List.cons_append] at room sees
    obtain ⟨first, atSign, turns, steps, sameLeft, seesSign, much⟩ := leftSpans before isLeft
      (grouped_of_part grouped List.mem_cons_self) bound power (by omega) leftBinds state sign
      (tokens ++ next :: rest) sees (signDiffers rfl) (signDiffers rfl) fun other isOther =>
        Option.some.inj (isSign.symm.trans isOther) ▸ leftEnds
    obtain ⟨turns, rfl⟩ : ∃ less, turns = less + 1 := ⟨turns - 1, by omega⟩
    obtain ⟨atRight, passed, seesRight⟩ := advance_run seesSign (by simp)
    have closes : Closes right op.rightPower next.kind :=
      ⟨noMember, noCall, fun follows isOp => (ends follows isOp).right rightBinds⟩
    obtain ⟨second, middle, isRead, sameRight, seesNext⟩ := reads_of_spans rightSpans tokens isRight
      (grouped_of_part grouped (List.mem_cons_of_mem _ (List.mem_singleton_self _))) bound op.rightPower
      (by omega) rightBinds atRight next rest seesRight closes
    obtain ⟨info, after, made, later⟩ := make_run seesNext (.binary op first second) sign.span.line
      sign.span.line
    refine ⟨.mk info (.binary op first second), after, turns, ?_, by simp [sameLeft, sameRight], later, ?_⟩
    · rw [steps, operators, run_bind (peekKind_run seesSign), isSign]
      dsimp only
      rw [if_neg (Nat.not_lt.2 tight)]
      exact (run_bind passed).trans ((run_bind isRead).trans (run_bind made))
    · simp only [List.length_append, List.length_cons]
      omega

end Spans

theorem spans_and_chains (tree : Node) : Spans tree ∧ (tree.isChain → Chains tree) := by
  induction tree using Node.induction with
  | step tree parts =>
    have chains := chains_of_parts fun part inside =>
      ⟨reads_of_spans (parts part inside).1, (parts part inside).2⟩
    refine ⟨?_, chains⟩
    rcases tree with ⟨info, shape⟩
    cases shape with
    | literal | name | paren | new | member | call => exact spans_of_chains rfl (chains rfl)
    | unary op part => exact spans_unary (parts part (List.mem_singleton_self _)).1
    | binary op left right =>
      exact spans_binary (parts left List.mem_cons_self).1
        (parts right (List.mem_cons_of_mem _ (List.mem_singleton_self _))).1
    | _ => exact fun _ written => nomatch written

/-- An expression that is read is grouped by the powers of its operators, and the tokens of an expression
that is so grouped are read as that expression. -/
theorem whole_groups_by_power (bound : Nat) :
    (∀ state node after, whole bound state = .ok node after → node.Grouped) ∧
      ∀ tree tokens, tree.Grouped → Written tree tokens → tokens.length < bound →
        ∀ state next rest, state.Sees (tokens ++ next :: rest) → next.kind ≠ .mark .dot →
        next.kind ≠ .mark .leftParen → BinaryOp.ofToken? next.kind = none →
        ∃ node after, whole bound state = .ok node after ∧ node.bare = tree.bare ∧
          after.Sees (next :: rest) := by
  refine ⟨fun state node after isRead => (read_grouped bound 0 state node after trivial isRead).grouped, ?_⟩
  intro tree tokens grouped written room state next rest sees noMember noCall noOperator
  have closes : Closes tree 0 next.kind :=
    ⟨noMember, noCall, fun op isOp => nomatch noOperator.symm.trans isOp⟩
  exact reads_of_spans (spans_and_chains tree).1 tokens written grouped bound 0 room
    (fun _ _ _ _ => Nat.zero_le _) state next rest sees closes

/-- In `a ^ Not b = c And d` the negation takes the comparison and ends before the conjunction. -/
theorem whole_groups_by_power_not :
    let token kind lexeme : Token := ⟨kind, lexeme, .point 1 1⟩
    let word text := token .identifier text
    let name text := Node.blank (.name text)
    let comparison := Node.blank (.binary .eq (name "b") (name "c"))
    let tree := Node.blank (.binary .and
      (.blank (.binary .pow (name "a") (.blank (.unary .not comparison)))) (name "d"))
    ∃ node after, whole 9 ⟨word "a", [token (.mark .caret) "^", token (.keyword .kwNot) "Not", word "b",
        token (.mark .equal) "=", word "c", token (.keyword .kwAnd) "And", word "d",
        token .endOfText ""], 1, [], 0⟩ = .ok node after ∧
      node.bare = tree.bare ∧ after.Sees [token .endOfText ""] := by
  intro token word name comparison tree
  have leaf (text : String) : (name text).Grouped := Node.grouped_of_isChain rfl nofun
  have binds (text : String) (power : Nat) : (name text).BindsFrom power := Node.bindsFrom_of_isChain rfl power
  have ends (text : String) (op : BinaryOp) : (name text).EndsBefore op := Node.endsBefore_of_isChain rfl op
  have isName (text : String) : Written (name text) [word text] := @Written.name _ (word text) rfl
  have negation : (Node.blank (.unary .not comparison)).Grouped := by
    refine Node.grouped_unary (fun op _ _ same => ?_)
      (Node.grouped_binary (ends "b" .eq) (binds "c" _) (leaf "b") (leaf "c"))
    obtain ⟨rfl, -, -⟩ := Shape.binary.inj same
    decide
  have grouped : tree.Grouped := by
    refine Node.grouped_binary (Node.endsBefore_binary (Node.endsBefore_unary ?_ (by decide)) (by decide))
      (binds "d" _) (Node.grouped_binary (ends "a" .pow) nofun (leaf "a") negation) (leaf "d")
    exact Node.endsBefore_binary (ends "c" .and) (by decide)
  have compared := @Written.binary ⟨⟨0⟩, 0, 0, []⟩ _ _ _ _ _ (token (.mark .equal) "=") (isName "b") rfl
    (isName "c")
  have negated := @Written.unary ⟨⟨0⟩, 0, 0, []⟩ _ _ _ (token (.keyword .kwNot) "Not") rfl compared
  have raised := @Written.binary ⟨⟨0⟩, 0, 0, []⟩ _ _ _ _ _ (token (.mark .caret) "^") (isName "a") rfl
    negated
  have written := @Written.binary ⟨⟨0⟩, 0, 0, []⟩ _ _ _ _ _ (token (.keyword .kwAnd) "And") raised rfl
    (isName "d")
  exact (whole_groups_by_power 9).2 tree _ grouped written (by decide) _ (token .endOfText "") [] rfl
    (by decide) (by decide) rfl

end Expression

end ScriptMigration
