import ScriptMigration.Grammar.Expression
import ScriptMigration.Syntax.Walk

/-! How operators are grouped. In an expression that was read, the operators of an operand bind at
least as tightly as the operator they are an operand of demands, and an operator that stands right of
an operand could not be taken into it. -/
namespace ScriptMigration

namespace Node

/-- A node that ends where an expression ends: the expression itself, or one on the right edge of its
right operand or of the operand of its unary operator. -/
inductive OnRightEdge : Node → Node → Prop where
  | self (node : Node) : OnRightEdge node node
  | right {part right left : Node} {info : NodeInfo} {op : BinaryOp} (inside : OnRightEdge part right) :
    OnRightEdge part (.mk info (.binary op left right))
  | operand {part operand : Node} {info : NodeInfo} {op : UnaryOp} (inside : OnRightEdge part operand) :
    OnRightEdge part (.mk info (.unary op operand))

def BindsFrom (node : Node) (power : Nat) : Prop :=
  ∀ op left right, node.shape = .binary op left right → power ≤ op.leftPower

/-- An operator after the expression takes all of it as its left operand: it binds no tighter than the
expression itself, and less tightly than every unary operator on the right edge demands. -/
structure EndsBefore (node : Node) (op : BinaryOp) : Prop where
  binary : ∀ inner left right, node.shape = .binary inner left right →
    op.leftPower ≤ inner.leftPower
  unary : ∀ part inner operand, OnRightEdge part node → part.shape = .unary inner operand →
    op.leftPower < inner.operandPower

structure GroupedAt (node : Node) : Prop where
  left : ∀ op left right, node.shape = .binary op left right → left.EndsBefore op
  right : ∀ op left right, node.shape = .binary op left right → right.BindsFrom op.rightPower
  operand : ∀ op operand, node.shape = .unary op operand → operand.BindsFrom op.operandPower

def Grouped (node : Node) : Prop := ∀ part ∈ node.descendants, part.GroupedAt

theorem grouped_iff {node : Node} : node.Grouped ↔
    node.GroupedAt ∧ ∀ part ∈ node.children, part.Grouped := by
  unfold Grouped
  rw [descendants_eq]
  simp only [List.forall_mem_cons, List.mem_flatMap, forall_exists_index, and_imp]
  exact and_congr_right fun _ => ⟨fun all part inside other below => all other part inside below,
    fun all other part inside below => all part inside other below⟩

/-- What ends an expression ends its right operand, which is tighter. -/
theorem EndsBefore.right {info : NodeInfo} {op next : BinaryOp} {left right : Node}
    (ends : (Node.mk info (.binary op left right)).EndsBefore next)
    (binds : right.BindsFrom op.rightPower) : right.EndsBefore next ∧ next.leftPower < op.rightPower := by
  have looser : next.leftPower ≤ op.leftPower := ends.binary op left right rfl
  refine ⟨⟨fun inner first second same => ?_, fun part inner operand inside same => ?_⟩, ?_⟩
  · have tight := binds inner first second same
    rw [BinaryOp.rightPower] at tight
    omega
  · exact ends.unary part inner operand (.right inside) same
  · exact Nat.lt_succ_of_le looser

theorem EndsBefore.operand {info : NodeInfo} {op : UnaryOp} {next : BinaryOp} {operand : Node}
    (ends : (Node.mk info (.unary op operand)).EndsBefore next)
    (binds : operand.BindsFrom op.operandPower) :
    operand.EndsBefore next ∧ next.leftPower < op.operandPower := by
  have looser : next.leftPower < op.operandPower := ends.unary _ op operand (.self _) rfl
  refine ⟨⟨fun inner first second same => ?_, fun part inner other inside same => ?_⟩, looser⟩
  · have tight := binds inner first second same
    omega
  · exact ends.unary part inner other (.operand inside) same

theorem endsBefore_unary {info : NodeInfo} {op : UnaryOp} {part : Node} {next : BinaryOp}
    (ends : part.EndsBefore next) (looser : next.leftPower < op.operandPower) :
    (Node.mk info (.unary op part)).EndsBefore next := by
  refine ⟨fun _ _ _ absurd => (nomatch absurd), fun other inner operand inside same => ?_⟩
  cases inside with
  | self =>
    obtain ⟨rfl, rfl⟩ := Shape.unary.inj same
    exact looser
  | operand inside => exact ends.unary other inner operand inside same

theorem endsBefore_binary {info : NodeInfo} {op next : BinaryOp} {left right : Node}
    (ends : right.EndsBefore next) (looser : next.leftPower ≤ op.leftPower) :
    (Node.mk info (.binary op left right)).EndsBefore next := by
  refine ⟨fun inner first second same => ?_, fun other inner operand inside same => ?_⟩
  · obtain ⟨rfl, rfl, rfl⟩ := Shape.binary.inj same
    exact looser
  · cases inside with
    | self => exact nomatch same
    | right inside => exact ends.unary other inner operand inside same

theorem grouped_unary {info : NodeInfo} {op : UnaryOp} {part : Node}
    (binds : part.BindsFrom op.operandPower) (grouped : part.Grouped) :
    (Node.mk info (.unary op part)).Grouped := by
  refine grouped_iff.2 ⟨⟨fun _ _ _ absurd => (nomatch absurd), fun _ _ _ absurd => (nomatch absurd), ?_⟩,
    List.forall_mem_singleton.2 grouped⟩
  intro inner operand same
  obtain ⟨rfl, rfl⟩ := Shape.unary.inj same
  exact binds

theorem grouped_binary {info : NodeInfo} {op : BinaryOp} {left right : Node}
    (ends : left.EndsBefore op) (binds : right.BindsFrom op.rightPower) (leftGrouped : left.Grouped)
    (rightGrouped : right.Grouped) : (Node.mk info (.binary op left right)).Grouped := by
  refine grouped_iff.2 ⟨⟨?_, ?_, fun _ _ absurd => (nomatch absurd)⟩,
    List.forall_mem_cons.2 ⟨leftGrouped, List.forall_mem_singleton.2 rightGrouped⟩⟩
  · intro inner first second same
    obtain ⟨rfl, rfl, rfl⟩ := Shape.binary.inj same
    exact ends
  · intro inner first second same
    obtain ⟨rfl, rfl, rfl⟩ := Shape.binary.inj same
    exact binds

def isChain (node : Node) : Bool :=
  match node.shape with
  | .literal _ | .name _ | .member .. | .call .. | .paren _ | .new .. => true
  | _ => false

section Chain

variable {node : Node} (chain : node.isChain)

include chain

theorem shape_ne_binary_of_isChain {op : BinaryOp} {left right : Node} :
    node.shape ≠ .binary op left right := by
  intro same
  rw [isChain, same] at chain
  exact nomatch chain

theorem shape_ne_unary_of_isChain {op : UnaryOp} {operand : Node} :
    node.shape ≠ .unary op operand := by
  intro same
  rw [isChain, same] at chain
  exact nomatch chain

theorem bindsFrom_of_isChain (power : Nat) : node.BindsFrom power := fun _ _ _ same =>
  absurd same (shape_ne_binary_of_isChain chain)

theorem onRightEdge_of_isChain {part : Node} (inside : OnRightEdge part node) : part = node := by
  cases inside with
  | self => rfl
  | right inside => exact absurd rfl (shape_ne_binary_of_isChain chain)
  | operand inside => exact absurd rfl (shape_ne_unary_of_isChain chain)

theorem endsBefore_of_isChain (op : BinaryOp) : node.EndsBefore op := by
  constructor
  · intro inner left right same
    exact absurd same (shape_ne_binary_of_isChain chain)
  · intro part inner operand inside same
    rw [onRightEdge_of_isChain chain inside] at same
    exact absurd same (shape_ne_unary_of_isChain chain)

theorem grouped_of_isChain (parts : ∀ part ∈ node.children, part.Grouped) : node.Grouped :=
  grouped_iff.2 ⟨⟨fun _ _ _ same => absurd same (shape_ne_binary_of_isChain chain),
    fun _ _ _ same => absurd same (shape_ne_binary_of_isChain chain),
    fun _ _ same => absurd same (shape_ne_unary_of_isChain chain)⟩, parts⟩

end Chain

end Node

namespace Reader

variable {α β : Type}

/-- Where a reader that starts as `before` says returns a value, `after` holds of it and of where the
reader then stands. -/
def Leads (before : State → Prop) (reader : Reader α) (after : α → State → Prop) : Prop :=
  ∀ state value later, before state → reader state = .ok value later → after value later

namespace Leads

variable {before : State → Prop} {reader : Reader α} {after : α → State → Prop}

theorem pure {value : α} (holds : ∀ state, before state → after value state) :
    Leads before (pure value) after := by
  intro state result later starts returns
  obtain ⟨rfl, rfl⟩ : value = result ∧ state = later := by simpa [Pure.pure, EStateM.pure] using returns
  exact holds state starts

theorem bind {next : α → Reader β} {last : β → State → Prop} (first : Leads before reader after)
    (rest : ∀ value, Leads (after value) (next value) last) : Leads before (reader >>= next) last := by
  intro state result later starts returns
  simp only [Bind.bind, EStateM.bind] at returns
  split at returns
  · rename_i value middle isRead
    exact rest value middle result later (first state value middle starts isRead) returns
  · exact nomatch returns

theorem weaken {before' : State → Prop} {after' : α → State → Prop} (leads : Leads before reader after)
    (first : ∀ state, before' state → before state)
    (last : ∀ value state, after value state → after' value state) : Leads before' reader after' :=
  fun state value later starts returns => last value later (leads state value later (first state starts) returns)

theorem any (before : State → Prop) (reader : Reader α) : Leads before reader fun _ _ => True :=
  fun _ _ _ _ _ => trivial

theorem anyThen {next : α → Reader β} {last : β → State → Prop}
    (rest : ∀ value, Leads (fun _ => True) (next value) last) : Leads before (reader >>= next) last :=
  (any before reader).bind rest

theorem stop {cause : SyntaxCause} : Leads before (Reader.stop cause) after :=
  fun _ _ _ _ returns => nomatch returns

theorem stop_bind {cause : SyntaxCause} {next : β → Reader α} :
    Leads before (Reader.stop cause >>= next) after :=
  fun _ _ _ _ returns => nomatch returns

theorem throw_bind {fault : SyntaxFault} {next : β → Reader α} :
    Leads before (throw fault >>= next) after :=
  fun _ _ _ _ returns => nomatch returns

theorem make {shape : Shape Node} {line lastLine : Nat} {after : Node → State → Prop}
    (holds : ∀ info state, before state →
      after (.mk info shape) { state with fresh := state.fresh + 1 }) :
    Leads before (make shape line lastLine) after := by
  intro state value later starts returns
  obtain ⟨rfl, rfl⟩ := EStateM.Result.ok.inj returns
  exact holds _ state starts

theorem peekKind : Leads before peekKind fun kind state => before state ∧ state.current.kind = kind := by
  intro state value later starts returns
  obtain ⟨rfl, rfl⟩ := EStateM.Result.ok.inj returns
  exact ⟨starts, rfl⟩

theorem take {next : α → Reader β} {last : β → State → Prop} {fine : α → Prop}
    (first : Leads before reader fun value _ => fine value)
    (rest : ∀ value, fine value → Leads (fun _ => True) (next value) last) :
    Leads before (reader >>= next) last :=
  first.bind fun value => fun state result later isFine returns =>
    rest value isFine state result later trivial returns

theorem commaList {item : Reader α} {fine : α → Prop}
    (each : Leads (fun _ => True) item fun value _ => fine value) (bound : Nat) :
    Leads (fun _ => True) (commaList item bound) fun values _ => ∀ value ∈ values, fine value := by
  induction bound with
  | zero => exact stop
  | succ bound ih =>
    refine each.take fun first isFine => .anyThen fun found => ?_
    split
    · refine ih.take fun rest areFine => .pure fun _ _ value inside => ?_
      rcases List.mem_cons.1 inside with rfl | inside
      · exact isFine
      · exact areFine value inside
    · refine .pure fun _ _ value inside => ?_
      rw [List.mem_singleton.1 inside]
      exact isFine

end Leads

end Reader

namespace Expression

open Reader

abbrev GivesGrouped (reader : Reader Node) : Prop :=
  Leads (fun _ => True) reader fun node _ => node.Grouped

abbrev GivesChain (reader : Reader Node) : Prop :=
  Leads (fun _ => True) reader fun node _ => node.isChain ∧ node.Grouped

theorem make_chain {shape : Shape Node} {line lastLine : Nat}
    (chain : ∀ info, (Node.mk info shape).isChain) (parts : ∀ part ∈ shape.children, part.Grouped) :
    GivesChain (make shape line lastLine) :=
  .make fun info _ _ => ⟨chain info, Node.grouped_of_isChain (chain info) parts⟩

section Nested

variable {expr : Reader Node}

theorem arguments_grouped (nested : GivesGrouped expr) (bound : Nat) :
    Leads (fun _ => True) (arguments expr bound) fun args _ => ∀ arg ∈ args, arg.Grouped := by
  refine .anyThen fun found => ?_
  split
  · exact .pure fun _ _ _ absurd => nomatch absurd
  · have argument : GivesGrouped (do
        let kind ← peekKind
        if kind == .mark .comma || kind == .mark .rightParen then make .missing (← line)
        else expr) := by
      refine .anyThen fun kind => ?_
      split
      · refine .anyThen fun line => .make fun info _ _ => Node.grouped_iff.2 ⟨?_, ?_⟩
        · exact ⟨fun _ _ _ absurd => (nomatch absurd), fun _ _ _ absurd => (nomatch absurd),
            fun _ _ absurd => nomatch absurd⟩
        · exact fun _ absurd => nomatch absurd
      · exact nested
    refine (Leads.commaList argument bound).take fun args areGrouped => ?_
    exact .anyThen fun _ => .pure fun _ _ => areGrouped

/-- The literal that a number spells, once its token is passed. -/
def number (token : Token) (line : Nat) : Reader Node := do
  let _ ← advance
  match numeral? token with
  | some value => make (.literal value) line
  | none => do
    let shape ← throw ⟨.invalidNumber token.lexeme, token.span⟩
    make shape line

theorem primary_grouped (nested : GivesGrouped expr) (bound : Nat) :
    GivesChain (primary expr bound) := by
  have leaf {shape : Shape Node} {line : Nat} (parts : shape.children = [])
      (chain : ∀ info, (Node.mk info shape).isChain) : GivesChain (make shape line) :=
    make_chain chain fun _ inside => by
      rw [parts] at inside
      cases inside
  have literal (token : Token) (line : Nat) : GivesChain (number token line) := by
    refine .anyThen fun _ => ?_
    split
    · exact leaf rfl fun _ => rfl
    · exact .throw_bind
  refine .anyThen fun token => ?_
  simp only [pure_bind]
  split
  · exact literal token _
  · exact literal token _
  · exact literal token _
  · exact literal token _
  · exact .anyThen fun _ => leaf rfl fun _ => rfl
  · exact .anyThen fun _ => leaf rfl fun _ => rfl
  · exact .anyThen fun _ => leaf rfl fun _ => rfl
  · exact .anyThen fun _ => leaf rfl fun _ => rfl
  · exact .anyThen fun _ => leaf rfl fun _ => rfl
  · exact .anyThen fun _ => leaf rfl fun _ => rfl
  · exact .anyThen fun _ => leaf rfl fun _ => rfl
  · exact .anyThen fun _ => leaf rfl fun _ => rfl
  · refine .anyThen fun _ => nested.take fun inner isGrouped => .anyThen fun _ => ?_
    refine make_chain (fun _ => rfl) fun part inside => ?_
    rw [List.mem_singleton.1 inside]
    exact isGrouped
  · exact .anyThen fun _ => .anyThen fun name => leaf rfl fun _ => rfl
  · refine .anyThen fun _ => .anyThen fun name => .anyThen fun found => ?_
    split
    · exact (arguments_grouped nested bound).take fun args areGrouped =>
        make_chain (fun _ => rfl) areGrouped
    · exact leaf rfl fun _ => rfl
  · exact .stop_bind

theorem suffixes_grouped (nested : GivesGrouped expr) (bound : Nat) (before : Node)
    (chain : before.isChain) (grouped : before.Grouped) : GivesChain (suffixes expr bound before) := by
  induction bound generalizing before with
  | zero => exact .stop
  | succ bound ih =>
    refine .anyThen fun token => ?_
    split
    · refine .anyThen fun _ => .anyThen fun name => ?_
      refine Leads.take (make_chain (fun _ => rfl) fun part inside => ?_) fun node fine =>
        ih node fine.1 fine.2
      rw [List.mem_singleton.1 inside]
      exact grouped
    · refine .anyThen fun _ => (arguments_grouped nested bound).take fun args areGrouped => ?_
      refine Leads.take (make_chain (fun _ => rfl) fun part inside => ?_) fun node fine =>
        ih node fine.1 fine.2
      rcases List.mem_cons.1 inside with rfl | inside
      · exact grouped
      · exact areGrouped part inside
    · exact .pure fun _ _ => ⟨chain, grouped⟩

theorem chain_grouped (nested : GivesGrouped expr) (bound : Nat) : GivesChain (chain expr bound) :=
  (primary_grouped nested bound).take fun before fine =>
    suffixes_grouped nested bound before fine.1 fine.2

end Nested

/-- An expression whose operators bind at least as tightly as the power and that ends before the next
token, which would end any operand of that power. -/
structure ReadFrom (power : Nat) (node : Node) (state : State) : Prop where
  grouped : node.Grouped
  binds : node.BindsFrom power
  ends : ∀ op, BinaryOp.ofToken? state.current.kind = some op → node.EndsBefore op ∧ op.leftPower < power

section Operators

variable {expr : Nat → Reader Node}
  (nested : ∀ power, Leads (fun _ => True) (expr power) (ReadFrom power))

include nested

theorem operand_grouped (bound : Nat) : Leads (fun _ => True) (operand expr bound) fun node state =>
    node.Grouped ∧ (∀ power, node.BindsFrom power) ∧
      ∀ op, BinaryOp.ofToken? state.current.kind = some op → node.EndsBefore op := by
  refine .anyThen fun kind => ?_
  split
  · have grouped : GivesGrouped (expr 0) := (nested 0).weaken (fun _ _ => trivial) fun _ _ read =>
      read.grouped
    refine (chain_grouped grouped bound).weaken (fun _ _ => trivial) fun node state fine => ?_
    exact ⟨fine.2, Node.bindsFrom_of_isChain fine.1, fun op _ => Node.endsBefore_of_isChain fine.1 op⟩
  · rename_i op isUnary
    refine .anyThen fun token => (nested op.operandPower).bind fun part => .make fun info state read => ?_
    refine ⟨Node.grouped_unary read.binds read.grouped, fun _ _ _ _ absurd => (nomatch absurd),
      fun next isNext => ?_⟩
    obtain ⟨ends, looser⟩ := read.ends next isNext
    exact Node.endsBefore_unary ends looser

/-- Each operator finds an operand on its left that ends before it, and one on its right that ends
before the next operator; the two make an operand that ends there too. -/
theorem operators_grouped (power bound : Nat) (left : Node) (grouped : left.Grouped)
    (binds : left.BindsFrom power) : Leads (fun state =>
      ∀ op, BinaryOp.ofToken? state.current.kind = some op → left.EndsBefore op)
    (operators expr power bound left) (ReadFrom power) := by
  induction bound generalizing left with
  | zero => exact .stop
  | succ bound ih =>
    refine Leads.peekKind.bind fun kind => ?_
    split
    · rename_i noOperator
      refine .pure fun state starts => ⟨grouped, binds, fun op isOp => ?_⟩
      rw [starts.2, noOperator] at isOp
      exact nomatch isOp
    · rename_i op isOp
      split
      · rename_i looser
        refine .pure fun state starts => ⟨grouped, binds, fun next isNext => ⟨starts.1 next isNext, ?_⟩⟩
        rw [starts.2, isOp] at isNext
        obtain rfl := Option.some.inj isNext
        exact looser
      · rename_i tight
        -- The operand on the left ends before this operator; only its operator is kept of the place.
        have here : Leads (fun state => (∀ op, BinaryOp.ofToken? state.current.kind = some op →
            left.EndsBefore op) ∧ state.current.kind = kind) advance fun _ _ => left.EndsBefore op :=
          fun state _ _ starts _ => starts.1 op (by rw [starts.2, isOp])
        refine here.take fun token ends => (nested op.rightPower).bind fun right => ?_
        have made : Leads (ReadFrom op.rightPower right) (make (.binary op left right) token.span.line)
            fun node state => node.Grouped ∧ node.BindsFrom power ∧
              ∀ next, BinaryOp.ofToken? state.current.kind = some next → node.EndsBefore next := by
          refine .make fun info state read => ⟨Node.grouped_binary ends read.binds grouped read.grouped, ?_,
            fun next isNext => ?_⟩
          · intro inner first second same
            obtain ⟨rfl, rfl, rfl⟩ := Shape.binary.inj same
            exact Nat.not_lt.1 tight
          · obtain ⟨endsRight, looser⟩ := read.ends next isNext
            exact Node.endsBefore_binary endsRight (Nat.lt_succ_iff.1 looser)
        refine made.bind fun node state result later fine returns => ?_
        exact ih node fine.1 fine.2.1 state result later fine.2.2 returns

end Operators

theorem read_grouped (bound power : Nat) :
    Leads (fun _ => True) (read bound power) (ReadFrom power) := by
  induction bound generalizing power with
  | zero => exact .stop
  | succ bound ih =>
    refine (operand_grouped ih (bound + 1)).bind fun left state result later fine returns => ?_
    exact operators_grouped ih power (bound + 1) left fine.1 (fine.2.1 power) state result later
      fine.2.2 returns

end Expression

end ScriptMigration
