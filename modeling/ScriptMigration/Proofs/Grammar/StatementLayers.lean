import ScriptMigration.Proofs.Grammar.Grouping
import ScriptMigration.Proofs.Grammar.Modules
import ScriptMigration.Proofs.Syntax.Layers

/-! The expressions and the statements that are read are in layers: every reader makes nodes of its kind
over parts that it has read. None of them is one that only later passes make. -/
namespace ScriptMigration

namespace Node

def Is (family : Shape.Family) (node : Node) : Prop := node.shape.family = family ∧ node.AsRead

def FitsIn (outer : Shape.Family) (node : Node) : Prop :=
  outer.holds node.shape.family ∧ node.AsRead

theorem Is.fitsIn {family outer : Shape.Family} {node : Node} (is : node.Is family)
    (holds : outer.holds family) : node.FitsIn outer := by
  refine ⟨?_, is.2⟩
  rw [is.1]
  exact holds

theorem is_of_parts {info : NodeInfo} {shape : Shape Node} (differs : shape.family ≠ .method)
    (written : shape.isWritten) (parts : ∀ part ∈ shape.children, part.FitsIn shape.family) :
    (mk info shape).Is shape.family :=
  ⟨rfl, .ofParts ⟨layered_of_parts differs fun part inside => (parts part inside).1, written⟩
    fun part inside => (parts part inside).2⟩

end Node

namespace Reader

variable {α β : Type} {reader : Reader α} {fine : α → Prop}

/-- What a reader returns is fine. -/
abbrev Yields (reader : Reader α) (fine : α → Prop) : Prop :=
  Leads (fun _ => True) reader fun value _ => fine value

theorem Leads.map {f : α → β} {good : β → Prop} (yields : Yields reader fine)
    (carries : ∀ value, fine value → good (f value)) : Yields (f <$> reader) good := by
  rw [map_eq_pure_bind]
  exact yields.take fun value isFine => .pure fun _ _ => carries value isFine

theorem Leads.mono {good : α → Prop} (yields : Yields reader fine)
    (carries : ∀ value, fine value → good value) : Yields reader good :=
  yields.weaken (fun _ state => state) fun value _ => carries value

theorem Leads.branch (fine : α → Prop) {found : Bool} {other : Reader α} {next : α → Reader β}
    {good : β → Prop} (first : Yields reader fine) (second : Yields other fine)
    (rest : ∀ value, fine value → Yields (next value) good) :
    Yields (do next (← if found then reader else other)) good := by
  cases found with
  | true => exact first.take rest
  | false => exact second.take rest

theorem Leads.recovering {fallback : α} (yields : Yields reader fine) (isFine : fine fallback) :
    Yields (recovering reader fallback) fine := by
  intro state value later starts returns
  unfold Reader.recovering at returns
  cases found : reader state with
  | ok result after =>
    rw [found] at returns
    obtain ⟨rfl, rfl⟩ := EStateM.Result.ok.inj returns
    exact yields state _ _ starts found
  | error fault after =>
    rw [found] at returns
    have skips : Yields (do note fault; skipLine; return fallback : Reader α) fine :=
      .anyThen fun _ => .anyThen fun _ => .pure fun _ _ => isFine
    exact skips after value later trivial returns

theorem Leads.regular {trees : α → List Node} {good : α → Prop} (yields : Yields reader fine)
    (gives : Gives [] reader trees good) : Yields reader fun value =>
      fine value ∧ good value ∧ ∀ node ∈ (trees value).flatMap Node.descendants, node.Regular := by
  intro state value later starts returns
  have given := gives 0 state (Nat.zero_le _) .nil
  rw [returns] at given
  exact ⟨yields state value later starts returns, given.2.2, given.2.1.regular⟩

theorem Leads.node {shape : Shape Node} {line lastLine : Nat} (differs : shape.family ≠ .method)
    (written : shape.isWritten) (parts : ∀ part ∈ shape.children, part.FitsIn shape.family) :
    Yields (Reader.make shape line lastLine) (Node.Is shape.family) :=
  .make fun _ _ _ => Node.is_of_parts differs written parts

end Reader

namespace Expression

open Reader

abbrev YieldsExpression (reader : Reader Node) : Prop := Yields reader (Node.Is .expression)

theorem make_yields {shape : Shape Node} {line lastLine : Nat} (family : shape.family = .expression)
    (written : shape.isWritten) (parts : ∀ part ∈ shape.children, part.Is .expression) :
    YieldsExpression (make shape line lastLine) := by
  refine (Leads.node (by rw [family]; decide) written fun part inside => ?_).mono fun node is => ?_
  · rw [family]
    exact (parts part inside).fitsIn rfl
  · rwa [family] at is

theorem leaf_yields {shape : Shape Node} {line lastLine : Nat} (family : shape.family = .expression)
    (written : shape.isWritten) (bare : shape.children = []) :
    YieldsExpression (make shape line lastLine) :=
  make_yields family written fun _ inside => nomatch bare ▸ inside

section Nested

variable {expr : Reader Node}

theorem arguments_yields (nested : YieldsExpression expr) (bound : Nat) :
    Yields (arguments expr bound) fun args => ∀ arg ∈ args, arg.Is .expression := by
  refine .anyThen fun found => ?_
  split
  · exact .pure fun _ _ _ absurd => nomatch absurd
  · have argument : YieldsExpression (do
        let kind ← peekKind
        if kind == .mark .comma || kind == .mark .rightParen then make .missing (← line)
        else expr) := by
      refine .anyThen fun kind => ?_
      split
      · exact .anyThen fun line => leaf_yields rfl rfl rfl
      · exact nested
    refine (Leads.commaList argument bound).take fun args fine => ?_
    exact .anyThen fun _ => .pure fun _ _ => fine

theorem number_yields (token : Token) (line : Nat) : YieldsExpression (do
    let _ ← advance
    match numeral? token with
    | some value => make (.literal value) line
    | none => do
      let shape ← throw ⟨.invalidNumber token.lexeme, token.span⟩
      make shape line) := by
  refine .anyThen fun _ => ?_
  split
  · exact leaf_yields rfl rfl rfl
  · exact .throw_bind

theorem primary_yields (nested : YieldsExpression expr) (bound : Nat) :
    YieldsExpression (primary expr bound) := by
  refine .anyThen fun token => ?_
  simp only [pure_bind]
  split
  · exact number_yields token _
  · exact number_yields token _
  · exact number_yields token _
  · exact number_yields token _
  · exact .anyThen fun _ => leaf_yields rfl rfl rfl
  · exact .anyThen fun _ => leaf_yields rfl rfl rfl
  · exact .anyThen fun _ => leaf_yields rfl rfl rfl
  · exact .anyThen fun _ => leaf_yields rfl rfl rfl
  · exact .anyThen fun _ => leaf_yields rfl rfl rfl
  · exact .anyThen fun _ => leaf_yields rfl rfl rfl
  · exact .anyThen fun _ => leaf_yields rfl rfl rfl
  · exact .anyThen fun _ => leaf_yields rfl rfl rfl
  · refine .anyThen fun _ => nested.take fun inner fine => .anyThen fun _ => ?_
    exact make_yields rfl rfl (List.forall_mem_singleton.2 fine)
  · exact .anyThen fun _ => .anyThen fun name => leaf_yields rfl rfl rfl
  · refine .anyThen fun _ => .anyThen fun name => .anyThen fun found => ?_
    split
    · exact (arguments_yields nested bound).take fun args fine => make_yields rfl rfl fine
    · exact leaf_yields rfl rfl rfl
  · exact .stop_bind

theorem suffixes_yields (nested : YieldsExpression expr) (bound : Nat) (before : Node)
    (fine : before.Is .expression) : YieldsExpression (suffixes expr bound before) := by
  induction bound generalizing before with
  | zero => exact .stop
  | succ bound ih =>
    refine .anyThen fun token => ?_
    split
    · refine .anyThen fun _ => .anyThen fun name => ?_
      exact Leads.take (make_yields rfl rfl (List.forall_mem_singleton.2 fine)) ih
    · refine .anyThen fun _ => (arguments_yields nested bound).take fun args areFine => ?_
      exact Leads.take (make_yields rfl rfl (List.forall_mem_cons.2 ⟨fine, areFine⟩)) ih
    · exact .pure fun _ _ => fine

theorem chain_yields (nested : YieldsExpression expr) (bound : Nat) :
    YieldsExpression (chain expr bound) :=
  (primary_yields nested bound).take fun before => suffixes_yields nested bound before

end Nested

section Operators

variable {expr : (power : Nat) → Reader Node}

theorem operand_yields (nested : ∀ power, YieldsExpression (expr power)) (bound : Nat) :
    YieldsExpression (operand expr bound) := by
  refine .anyThen fun kind => ?_
  split
  · exact chain_yields (nested 0) bound
  · refine .anyThen fun token => (nested _).take fun inner fine => ?_
    exact make_yields rfl rfl (List.forall_mem_singleton.2 fine)

theorem operators_yields (nested : ∀ power, YieldsExpression (expr power)) (power bound : Nat)
    (left : Node) (fine : left.Is .expression) :
    YieldsExpression (operators expr power bound left) := by
  induction bound generalizing left with
  | zero => exact .stop
  | succ bound ih =>
    refine .anyThen fun kind => ?_
    split
    · exact .pure fun _ _ => fine
    · split
      · exact .pure fun _ _ => fine
      · refine .anyThen fun token => (nested _).take fun right isFine => ?_
        exact Leads.take (make_yields rfl rfl
          (List.forall_mem_cons.2 ⟨fine, List.forall_mem_singleton.2 isFine⟩)) ih

end Operators

theorem read_yields (bound power : Nat) : YieldsExpression (read bound power) := by
  induction bound generalizing power with
  | zero => exact .stop
  | succ bound ih =>
    exact (operand_yields ih _).take fun left => operators_yields ih power _ left

theorem whole_yields (bound : Nat) : YieldsExpression (whole bound) := read_yields bound 0

theorem target_yields (bound : Nat) : YieldsExpression (target bound) := by
  cases bound with
  | zero => exact .stop
  | succ bound => exact chain_yields (read_yields bound 0) _

end Expression

namespace Statement

open Reader Expression

abbrev YieldsItem (reader : Reader Node) : Prop := Yields reader (Node.FitsIn .block)

abbrev YieldsItems (reader : Reader (List Node)) : Prop :=
  Yields reader fun nodes => ∀ node ∈ nodes, node.FitsIn .block

abbrev YieldsBlock (reader : (TokenKind → Bool) → Reader Node) : Prop :=
  ∀ stops, Yields (reader stops) (Node.Is .block)

def Site.family : Site → Shape.Family
  | member => .field
  | procedure => .localVar

section Making

variable {shape : Shape Node} {line lastLine : Nat}

theorem statement_yields (family : shape.family = .statement) (written : shape.isWritten)
    (parts : ∀ part ∈ shape.children, part.FitsIn .statement) :
    YieldsItem (make shape line lastLine) := by
  refine (Leads.node (by rw [family]; decide) written fun part inside => ?_).mono fun node is => ?_
  · rw [family]
    exact parts part inside
  · rw [family] at is
    exact is.fitsIn rfl

theorem valued_yields (family : shape.family = .statement) (written : shape.isWritten)
    (parts : ∀ part ∈ shape.children, part.Is .expression) :
    YieldsItem (make shape line lastLine) :=
  statement_yields family written fun part inside => (parts part inside).fitsIn rfl

theorem items_yields {items : List Node} (fine : ∀ node ∈ items, node.FitsIn .block) :
    Yields (make (.block items) line lastLine) (Node.Is .block) :=
  Leads.node (nomatch ·) rfl fine

theorem variable_yields {site : Site} {decl : VarDecl Node}
    (written : (decl.origin == .source) = true)
    (parts : ∀ part ∈ Shape.varParts decl, part.Is .expression) :
    Yields (make (site.shape decl) line lastLine) (Node.Is site.family) := by
  cases site with
  | member =>
    exact Leads.node (nomatch ·) written fun part inside => (parts part inside).fitsIn rfl
  | procedure =>
    exact Leads.node (nomatch ·) written fun part inside => (parts part inside).fitsIn rfl

theorem singleton_yields {reader : Reader Node} {fine : Node → Prop} (yields : Yields reader fine) :
    Yields (List.singleton <$> reader) fun nodes => ∀ node ∈ nodes, fine node :=
  yields.map fun _ isFine _ listed => List.mem_singleton.1 listed ▸ isFine

end Making

theorem arrayBounds_yields (bound : Nat) :
    Yields (arrayBounds bound) fun array => ∀ index ∈ array.bounds, index.Is .expression := by
  refine .anyThen fun _ => .anyThen fun found => ?_
  split
  · exact .pure fun _ _ _ absurd => nomatch absurd
  · refine (Leads.commaList (whole_yields bound) bound).take fun bounds fine => ?_
    exact .anyThen fun _ => .pure fun _ _ => fine

theorem variableDecl_yields (visibility : Visibility) (site : Site) (bound : Nat) :
    Yields (variableDecl visibility site bound) (Node.Is site.family) := by
  refine .anyThen fun line => .anyThen fun name => .anyThen fun isArray => ?_
  have parts {array : Option (ArrayBounds Node)} {typeName : Option String} {marks : DeclMarks}
      (fine : ∀ bounds ∈ array, ∀ index ∈ bounds.bounds, index.Is .expression) :
      ∀ part ∈ Shape.varParts { name, visibility, array, typeName, marks }, part.Is .expression := by
    cases array with
    | none => exact fun _ absurd => nomatch absurd
    | some bounds =>
      intro part inside
      exact fine bounds rfl part (by simpa [Shape.varParts] using inside)
  refine .branch (fun array => ∀ bounds ∈ array, ∀ index ∈ bounds.bounds, index.Is .expression) ?_ ?_
    fun array fine => .anyThen fun typed => ?_
  · exact (arrayBounds_yields bound).map fun _ fine _ same => Option.some.inj same ▸ fine
  · exact .pure fun _ _ _ absurd => nomatch absurd
  · split
    · exact .anyThen fun asNew => .anyThen fun typeName => variable_yields rfl (parts fine)
    · exact variable_yields rfl (parts fine)

theorem constantDecl_yields (visibility : Visibility) (site : Site) (bound : Nat) :
    Yields (constantDecl visibility site bound) (Node.Is site.family) := by
  refine .anyThen fun line => .anyThen fun name => .anyThen fun typed => ?_
  refine .branch (fun _ => True) (.any _ _) (.any _ _) fun typeName _ => .anyThen fun _ => ?_
  exact (whole_yields bound).take fun init fine =>
    variable_yields rfl (List.forall_mem_singleton.2 fine)

theorem asCall_yields {expr : Node} (fine : expr.Is .expression) : YieldsExpression (asCall expr) := by
  unfold asCall
  split
  · exact .pure fun _ _ => fine
  · exact make_yields rfl rfl (List.forall_mem_singleton.2 fine)

theorem assignment_yields (isSet : Bool) (bound : Nat) : YieldsItem (assignment isSet bound) := by
  refine .anyThen fun line => (target_yields bound).take fun target isTarget => .anyThen fun _ => ?_
  refine (whole_yields bound).take fun value isValue => valued_yields rfl rfl ?_
  exact List.forall_mem_cons.2 ⟨isTarget, List.forall_mem_singleton.2 isValue⟩

theorem bareArguments_yields (bound : Nat) :
    Yields (bareArguments bound) fun args => ∀ arg ∈ args, arg.Is .expression := by
  have argument : YieldsExpression (bareArgument bound) := by
    refine .anyThen fun kind => ?_
    split
    · exact .anyThen fun line => leaf_yields rfl rfl rfl
    · exact whole_yields bound
  exact Leads.commaList argument bound

theorem simple_yields (bound : Nat) : YieldsItem (simple bound) := by
  refine .anyThen fun line => (target_yields bound).take fun target isTarget => ?_
  refine .anyThen fun assigns => ?_
  have called {call : Node} (fine : call.Is .expression) : YieldsItem (make (.exprStmt call) line) :=
    valued_yields rfl rfl (List.forall_mem_singleton.2 fine)
  split
  · refine (whole_yields bound).take fun value isValue => valued_yields rfl rfl ?_
    exact List.forall_mem_cons.2 ⟨isTarget, List.forall_mem_singleton.2 isValue⟩
  · refine .anyThen fun kind => ?_
    split
    · exact (asCall_yields isTarget).take fun call => called
    · refine .anyThen fun isComma => ?_
      dsimp only
      split
      · -- The parentheses of the call are those of its first argument.
        rename_i callee arg shape
        have parts : target.children = [callee, arg] := by
          rw [Node.children, shape]
          rfl
        have whole : ∀ part ∈ target.children, part.Is .expression := by
          intro part inside
          have held := isTarget.2.here.parts part inside
          rw [isTarget.1] at held
          exact ⟨Shape.Family.eq_expression_of_holds held, isTarget.2.child inside⟩
        rw [parts] at whole
        obtain ⟨isCallee, isArg⟩ := List.forall_mem_cons.1 whole
        refine Leads.take (make_yields rfl rfl isArg) fun first isFirst => .anyThen fun _ => ?_
        refine (bareArguments_yields bound).take fun args areArgs => ?_
        refine Leads.take (make_yields rfl rfl ?_) fun call => called
        exact List.forall_mem_cons.2 ⟨isCallee, List.forall_mem_cons.2 ⟨isFirst, areArgs⟩⟩
      · refine (bareArguments_yields bound).take fun args areArgs => ?_
        exact Leads.take (make_yields rfl rfl (List.forall_mem_cons.2 ⟨isTarget, areArgs⟩)) fun call => called

theorem resized_yields (preserve : Bool) (bound : Nat) : YieldsItem (resized preserve bound) := by
  refine .anyThen fun line => .anyThen fun name => ?_
  refine Leads.take (leaf_yields rfl rfl rfl) fun target isTarget => ?_
  refine (arrayBounds_yields bound).take fun array areBounds => valued_yields rfl rfl ?_
  exact List.forall_mem_cons.2 ⟨isTarget, areBounds⟩

section Nested

variable {statement : Reader (List Node)}

theorem blockItems_yields (nested : YieldsItems statement) (stops : TokenKind → Bool) (bound : Nat) :
    YieldsItems (blockItems statement stops bound) := by
  induction bound with
  | zero => exact .stop
  | succ bound ih =>
    refine .anyThen fun _ => .anyThen fun kind => ?_
    split
    · exact .pure fun _ _ _ absurd => nomatch absurd
    · have items : YieldsItems (do
          let items ← statement
          expectEnd
          return items) :=
        nested.take fun items fine => .anyThen fun _ => .pure fun _ _ => fine
      have rest : YieldsItems (do
          let items ← recovering (do
            let items ← statement
            expectEnd
            return items) []
          let rest ← blockItems statement stops bound
          return items ++ rest) := by
        have none : ∀ node ∈ ([] : List Node), node.FitsIn .block := List.forall_mem_nil _
        refine (Leads.recovering items none).take fun items fine => ?_
        exact ih.take fun later areFine => .pure fun _ _ =>
          List.forall_mem_append.2 ⟨fine, areFine⟩
      split
      · exact .stop_bind
      · exact rest

theorem block_yields (nested : YieldsItems statement) (bound : Nat) :
    YieldsBlock (block statement bound) := by
  intro stops
  refine .anyThen fun first => (blockItems_yields nested stops bound).take fun items fine => ?_
  exact .anyThen fun last => items_yields fine

theorem inlineItems_yields (nested : YieldsItems statement) (bound : Nat) :
    YieldsItems (inlineItems statement bound) := by
  induction bound with
  | zero => exact .stop
  | succ bound ih =>
    refine .anyThen fun kind => ?_
    have none : YieldsItems (pure []) := .pure fun _ _ _ absurd => nomatch absurd
    split
    · exact none
    · exact none
    · exact none
    · exact none
    · refine nested.take fun items fine => .anyThen fun more => ?_
      split
      · exact ih.take fun later areFine => .pure fun _ _ =>
          List.forall_mem_append.2 ⟨fine, areFine⟩
      · exact .pure fun _ _ => fine

theorem singleLineIf_yields (nested : YieldsItems statement) (bound line : Nat) {cond : Node}
    (isCond : cond.Is .expression) : YieldsItem (singleLineIf statement bound line cond) := by
  have close {body : Node} {otherwise : Option Node} (isBody : body.Is .block)
      (isOtherwise : ∀ body ∈ otherwise.toList, body.Is .block) : YieldsItem (do
        if (← at? (.keyword .kwEnd)) && (← peekSecond) == .keyword .kwIf then
          let _ ← advance
          let _ ← advance
        make (.ifStmt true [⟨cond, body⟩] otherwise) line) := by
    have made : YieldsItem (make (.ifStmt true [⟨cond, body⟩] otherwise) line) := by
      refine statement_yields rfl rfl ?_
      refine List.forall_mem_cons.2 ⟨isCond.fitsIn rfl, List.forall_mem_cons.2 ⟨isBody.fitsIn rfl, ?_⟩⟩
      exact fun part inside => (isOtherwise part inside).fitsIn rfl
    refine .anyThen fun isEnd => .anyThen fun second => ?_
    dsimp only
    split
    · exact .anyThen fun _ => .anyThen fun _ => made
    · exact made
  refine (inlineItems_yields nested bound).take fun items fine => ?_
  refine Leads.take (items_yields fine) fun body isBody => .anyThen fun otherwise => ?_
  dsimp only
  split
  · refine (inlineItems_yields nested bound).take fun items areFine => ?_
    have made : Yields (some <$> make (.block items) line) fun otherwise =>
        ∀ body ∈ otherwise.toList, body.Is .block :=
      (items_yields areFine).map fun _ is _ listed => List.mem_singleton.1 listed ▸ is
    exact made.take fun otherwise => close isBody
  · exact close isBody fun _ absurd => nomatch absurd

abbrev ifParts (arms : List (IfArm Node)) (otherwise : Option Node) : List Node :=
  arms.flatMap (fun arm => [arm.cond, arm.body]) ++ otherwise.toList

theorem ifArms_yields {block : (TokenKind → Bool) → Reader Node} {expr : Reader Node}
    (nested : YieldsBlock block) (condition : YieldsExpression expr) (stops : TokenKind → Bool)
    (bound : Nat) (arms : List (IfArm Node)) (otherwise : Option Node)
    (fine : ∀ part ∈ ifParts arms otherwise, part.FitsIn .statement) :
    Yields (ifArms block stops expr bound arms otherwise) fun (arms, otherwise) =>
      ∀ part ∈ ifParts arms otherwise, part.FitsIn .statement := by
  induction bound generalizing arms otherwise with
  | zero => exact .stop
  | succ bound ih =>
    obtain ⟨areArms, isOtherwise⟩ := List.forall_mem_append.1 fine
    refine .anyThen fun isElseIf => ?_
    split
    · refine condition.take fun cond isCond => .anyThen fun _ => ?_
      refine (nested stops).take fun body isBody => ih _ _ ?_
      rw [ifParts, List.flatMap_append, List.flatMap_singleton]
      refine List.forall_mem_append.2 ⟨List.forall_mem_append.2 ⟨areArms, ?_⟩, isOtherwise⟩
      exact List.forall_mem_cons.2 ⟨isCond.fitsIn rfl, List.forall_mem_singleton.2 (isBody.fitsIn rfl)⟩
    · refine .anyThen fun isElse => ?_
      split
      · refine (nested _).take fun body isBody => ih _ _ (List.forall_mem_append.2 ⟨areArms, ?_⟩)
        exact List.forall_mem_singleton.2 (isBody.fitsIn rfl)
      · exact .pure fun _ _ => fine

theorem ifStmt_yields (nested : YieldsItems statement) (bound : Nat) :
    YieldsItem (ifStmt statement bound) := by
  refine .anyThen fun first => (whole_yields bound).take fun cond isCond => .anyThen fun _ => ?_
  refine .anyThen fun kind => ?_
  split
  · exact singleLineIf_yields nested bound _ isCond
  · refine (block_yields nested bound _).take fun body isBody => ?_
    refine (ifArms_yields (block_yields nested bound) (whole_yields bound) _ bound [⟨cond, body⟩]
      none ?_).take fun (arms, otherwise) fine => ?_
    · exact List.forall_mem_cons.2
        ⟨isCond.fitsIn rfl, List.forall_mem_singleton.2 (isBody.fitsIn rfl)⟩
    · exact .anyThen fun _ => .anyThen fun _ => .anyThen fun last => statement_yields rfl rfl fine

theorem caseTest_yields (bound : Nat) :
    Yields (caseTest bound) fun test => ∀ part ∈ test.parts, part.Is .expression := by
  refine .anyThen fun isComparison => ?_
  split
  · refine .anyThen fun kind => ?_
    split
    · exact .stop
    · exact .anyThen fun _ => (whole_yields bound).take fun value fine => .pure fun _ _ =>
        List.forall_mem_singleton.2 fine
  · refine (whole_yields bound).take fun low isLow => .anyThen fun isRange => ?_
    split
    · exact (whole_yields bound).take fun high isHigh => .pure fun _ _ =>
        List.forall_mem_cons.2 ⟨isLow, List.forall_mem_singleton.2 isHigh⟩
    · exact .pure fun _ _ => List.forall_mem_singleton.2 isLow

theorem caseArms_yields {block : (TokenKind → Bool) → Reader Node}
    {tests : Reader (List (CasePattern Node))} (nested : YieldsBlock block)
    (tested : Yields tests fun tests =>
      ∀ part ∈ tests.flatMap CasePattern.parts, part.Is .expression) (bound : Nat) :
    Yields (caseArms block tests bound) fun cases =>
      ∀ part ∈ caseParts cases, part.FitsIn .statement := by
  induction bound with
  | zero => exact .stop
  | succ bound ih =>
    have none : Yields (pure ([], Option.none) : Reader (List (CaseArm Node) × Option Node)) fun cases =>
        ∀ part ∈ caseParts cases, part.FitsIn .statement := .pure fun _ _ _ absurd => nomatch absurd
    refine .anyThen fun isCase => ?_
    split
    · refine .anyThen fun isElse => ?_
      split
      · refine .anyThen fun _ => (nested _).take fun body isBody => .pure fun _ _ => ?_
        exact List.forall_mem_singleton.2 (isBody.fitsIn rfl)
      · refine tested.take fun tests areTests => .anyThen fun _ => ?_
        refine (nested _).take fun body isBody => ih.take fun (arms, otherwise) fine => ?_
        refine .pure fun _ _ => ?_
        obtain ⟨areArms, isOtherwise⟩ := List.forall_mem_append.1 fine
        rw [caseParts, List.flatMap_cons]
        refine List.forall_mem_append.2 ⟨List.forall_mem_append.2 ⟨?_, areArms⟩, isOtherwise⟩
        exact List.forall_mem_append.2 ⟨fun part inside => (areTests part inside).fitsIn rfl,
          List.forall_mem_singleton.2 (isBody.fitsIn rfl)⟩
    · exact none

theorem selectStmt_yields (nested : YieldsItems statement) (bound : Nat) :
    YieldsItem (selectStmt statement bound) := by
  refine .anyThen fun first => .anyThen fun _ => (whole_yields bound).take fun subject isSubject => ?_
  refine .anyThen fun _ => .anyThen fun _ => ?_
  have tested : Yields (commaList (caseTest bound) bound) fun tests =>
      ∀ part ∈ tests.flatMap CasePattern.parts, part.Is .expression := by
    refine (Leads.commaList (caseTest_yields bound) bound).mono fun tests fine part inside => ?_
    obtain ⟨test, among, isPart⟩ := List.mem_flatMap.1 inside
    exact fine test among part isPart
  refine (caseArms_yields (block_yields nested bound) tested bound).take fun (arms, otherwise) fine => ?_
  refine .anyThen fun _ => .anyThen fun _ => .anyThen fun last => statement_yields rfl rfl ?_
  exact List.forall_mem_cons.2 ⟨isSubject.fitsIn rfl, fine⟩

theorem forStmt_yields (nested : YieldsItems statement) (bound : Nat) :
    YieldsItem (forStmt statement bound) := by
  refine .anyThen fun first => ?_
  have close {shape : Shape Node} (family : shape.family = .statement) (written : shape.isWritten)
      (parts : ∀ part ∈ shape.children, part.FitsIn .statement) : YieldsItem (do
        let _ ← expect (.keyword .kwNext)
        let _ ← eat .identifier
        make shape first.span.line (← lastLine)) :=
    .anyThen fun _ => .anyThen fun _ => .anyThen fun last => statement_yields family written parts
  have loopVariable_yields : YieldsExpression loopVariable :=
    .anyThen fun line => .anyThen fun name => leaf_yields rfl rfl rfl
  refine .anyThen fun isEach => ?_
  dsimp only
  split
  · refine loopVariable_yields.take fun item isItem => .anyThen fun _ => ?_
    refine (whole_yields bound).take fun collection isCollection => ?_
    refine (block_yields nested bound _).take fun body isBody => ?_
    rw [pure_bind]
    refine close rfl rfl (List.forall_mem_cons.2 ⟨isItem.fitsIn rfl, ?_⟩)
    exact List.forall_mem_cons.2
      ⟨isCollection.fitsIn rfl, List.forall_mem_singleton.2 (isBody.fitsIn rfl)⟩
  · refine loopVariable_yields.take fun counter isCounter => .anyThen fun _ => ?_
    refine (whole_yields bound).take fun low isLow => .anyThen fun _ => ?_
    refine (whole_yields bound).take fun high isHigh => .anyThen fun isStep => ?_
    refine .branch (fun step : Option Node => ∀ value ∈ step.toList, value.Is .expression) ?_ ?_
      fun step areSteps => ?_
    · exact (whole_yields bound).map fun _ fine _ listed => List.mem_singleton.1 listed ▸ fine
    · exact .pure fun _ _ _ absurd => nomatch absurd
    · refine (block_yields nested bound _).take fun body isBody => ?_
      rw [pure_bind]
      refine close rfl rfl (List.forall_mem_append.2 ⟨List.forall_mem_append.2 ⟨?_, ?_⟩, ?_⟩)
      · exact List.forall_mem_cons.2 ⟨isCounter.fitsIn rfl,
          List.forall_mem_cons.2 ⟨isLow.fitsIn rfl, List.forall_mem_singleton.2 (isHigh.fitsIn rfl)⟩⟩
      · exact fun part inside => (areSteps part inside).fitsIn rfl
      · exact List.forall_mem_singleton.2 (isBody.fitsIn rfl)

theorem loopTest?_yields (post : Bool) (bound : Nat) : Yields (loopTest? post bound) fun test =>
    ∀ found ∈ test, found.cond.Is .expression := by
  have tested (kind : LoopKind) : Yields (do
      return some ⟨kind, ← Expression.whole bound, post⟩) fun test : Option (LoopGuard Node) =>
        ∀ found ∈ test, found.cond.Is .expression :=
    (whole_yields bound).take fun cond fine => .pure fun _ _ _ same => Option.some.inj same ▸ fine
  refine .anyThen fun isWhile => ?_
  split
  · exact tested .whileTrue
  · refine .anyThen fun isUntil => ?_
    split
    · exact tested .untilTrue
    · exact .pure fun _ _ _ absurd => nomatch absurd

theorem loop_yields {test : Option (LoopGuard Node)} {body : Node} {line lastLine : Nat}
    (isTest : ∀ found ∈ test, found.cond.Is .expression) (isBody : body.Is .block) :
    YieldsItem (make (.loop test body) line lastLine) := by
  refine statement_yields rfl rfl fun part inside => ?_
  cases test with
  | none =>
    rw [List.mem_singleton.1 inside]
    exact isBody.fitsIn rfl
  | some test =>
    have either : part = test.cond ∨ part = body := by
      unfold Shape.children at inside
      dsimp only at inside
      split at inside <;> simp_all [or_comm]
    rcases either with rfl | rfl
    · exact (isTest test rfl).fitsIn rfl
    · exact isBody.fitsIn rfl

theorem doStmt_yields (nested : YieldsItems statement) (bound : Nat) :
    YieldsItem (doStmt statement bound) := by
  refine .anyThen fun first => (loopTest?_yields false bound).take fun before isBefore => ?_
  refine (block_yields nested bound _).take fun body isBody => .anyThen fun _ => ?_
  refine .branch _ (.pure fun _ _ => isBefore) (loopTest?_yields true bound) fun test isTest => ?_
  exact .anyThen fun last => loop_yields isTest isBody

theorem whileStmt_yields (nested : YieldsItems statement) (bound : Nat) :
    YieldsItem (whileStmt statement bound) := by
  refine .anyThen fun first => (whole_yields bound).take fun cond isCond => ?_
  refine (block_yields nested bound _).take fun body isBody => .anyThen fun _ => .anyThen fun last => ?_
  exact loop_yields (fun _ same => Option.some.inj same ▸ isCond) isBody

theorem withStmt_yields (nested : YieldsItems statement) (bound : Nat) :
    YieldsItem (withStmt statement bound) := by
  refine .anyThen fun first => (whole_yields bound).take fun subject isSubject => ?_
  refine (block_yields nested bound _).take fun body isBody => .anyThen fun _ => .anyThen fun _ => ?_
  refine .anyThen fun last => statement_yields rfl rfl ?_
  exact List.forall_mem_cons.2 ⟨isSubject.fitsIn rfl, List.forall_mem_singleton.2 (isBody.fitsIn rfl)⟩

end Nested

theorem bare_yields {shape : Shape Node} {line lastLine : Nat} (family : shape.family = .statement)
    (written : shape.isWritten) (bare : shape.children = []) : YieldsItem (make shape line lastLine) :=
  statement_yields family written fun _ inside => nomatch bare ▸ inside

theorem onErrorStmt_yields : YieldsItem onErrorStmt := by
  refine .anyThen fun first => .anyThen fun _ => .anyThen fun resumes => ?_
  split
  · exact .anyThen fun _ => bare_yields rfl rfl rfl
  · refine .anyThen fun _ => .anyThen fun line => ?_
    dsimp only
    split
    · exact .throw_bind
    · exact bare_yields rfl rfl rfl

theorem exitStmt_yields : YieldsItem exitStmt := by
  refine .anyThen fun first => .anyThen fun token => ?_
  simp only [pure_bind]
  split
  · exact bare_yields rfl rfl rfl
  · exact bare_yields rfl rfl rfl
  · exact bare_yields rfl rfl rfl
  · exact bare_yields rfl rfl rfl
  · exact bare_yields rfl rfl rfl
  · exact .throw_bind

theorem read_yields (bound : Nat) : YieldsItems (read bound) := by
  induction bound with
  | zero => exact .stop
  | succ bound ih =>
    have declared {reader : Reader Node} (yields : Yields reader (Node.Is Site.procedure.family)) :
        YieldsItems (commaList reader (bound + 1)) :=
      Leads.commaList (yields.mono fun _ is => is.fitsIn rfl) _
    refine .anyThen fun token => ?_
    split
    · exact .anyThen fun _ => declared (variableDecl_yields _ _ _)
    · exact .anyThen fun _ => declared (constantDecl_yields _ _ _)
    · exact .anyThen fun _ => .anyThen fun preserve => Leads.commaList (resized_yields _ _) _
    · exact singleton_yields (ifStmt_yields ih _)
    · exact singleton_yields (selectStmt_yields ih _)
    · exact singleton_yields (forStmt_yields ih _)
    · exact singleton_yields (doStmt_yields ih _)
    · exact singleton_yields (whileStmt_yields ih _)
    · exact singleton_yields (withStmt_yields ih _)
    · exact singleton_yields onErrorStmt_yields
    · exact singleton_yields exitStmt_yields
    · exact .anyThen fun _ => singleton_yields (assignment_yields _ _)
    · refine .anyThen fun _ => (target_yields _).take fun target isTarget => ?_
      refine (asCall_yields isTarget).take fun call isCall => ?_
      exact singleton_yields (valued_yields rfl rfl (List.forall_mem_singleton.2 isCall))
    · refine .anyThen fun _ => (target_yields _).take fun target isTarget => ?_
      exact singleton_yields (valued_yields rfl rfl (List.forall_mem_singleton.2 isTarget))
    · refine .anyThen fun second => ?_
      split
      · exact .anyThen fun _ => singleton_yields (assignment_yields _ _)
      · exact singleton_yields (simple_yields _)
    · exact singleton_yields (simple_yields _)
    · exact .stop

end Statement

end ScriptMigration
