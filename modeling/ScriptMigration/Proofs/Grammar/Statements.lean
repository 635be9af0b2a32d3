import ScriptMigration.Grammar.Module
import ScriptMigration.Proofs.Grammar.Numbering

/-! The expressions and the statements that are read are numbered, and the former are expressions. No
statement is marked as declared by a `Dim` at the top level, which is done later. -/
namespace ScriptMigration

namespace Expression

open Reader

abbrev GivesExpression (reader : Reader Node) : Prop :=
  Gives [] reader (fun node => [node]) fun node => node.shape.isExpression

abbrev GivesExpressions (reader : Reader (List Node)) : Prop :=
  Gives [] reader (fun nodes => nodes) fun nodes => ∀ node ∈ nodes, node.shape.isExpression

theorem typeNameTail_idle (bound : Nat) (name : String) : Idle (typeNameTail bound name) := by
  induction bound generalizing name with
  | zero => exact stop_idle _
  | succ bound ih =>
    refine (eat_idle _).bind fun found => ?_
    split
    · exact expectAnyName_idle.bind fun part => ih _
    · exact .pure _

theorem typeName_idle (bound : Nat) : Idle (typeName bound) :=
  expectAnyName_idle.bind fun _ => typeNameTail_idle _ _

theorem make_expression {held : List Node} {shape : Shape Node} {line lastLine : Nat}
    (parts : shape.children.Subperm held) (demands : shape.demands = [])
    (expression : shape.isExpression) (unsigned : shape.isUnsigned) :
    Gives held (make shape line lastLine) (fun node => [node]) fun node =>
      node.shape.isExpression :=
  (Gives.make parts fun _ => .ofNone demands unsigned).mono (fun _ _ => .refl _) fun _ isShape =>
    isShape ▸ expression

theorem make_call {held args : List Node} {parens : Bool} {callee : Node} {line lastLine : Nat}
    (areExpressions : ∀ arg ∈ args, arg.shape.isExpression)
    (parts : (callee :: args).Subperm held) :
    Gives held (make (.call parens callee args) line lastLine) (fun node => [node]) fun node =>
      node.shape.isExpression := by
  have whole : (Shape.call parens callee args).children.Subperm held := parts
  exact (Gives.make whole fun _ => .ofValues areExpressions rfl rfl).mono (fun _ _ => .refl _)
    fun _ isShape => isShape ▸ rfl

section Nested

variable {expr : Reader Node}

theorem arguments_gives (nested : GivesExpression expr) (bound : Nat) :
    GivesExpressions (arguments expr bound) := by
  refine .step (eat_idle _) fun found => ?_
  split
  · exact .pure (.refl _) fun _ absurd => nomatch absurd
  · have argument : GivesExpression (do
        let kind ← peekKind
        if kind == .mark .comma || kind == .mark .rightParen then make .missing (← line)
        else expr) := by
      refine .step peekKind_idle fun kind => ?_
      split
      · exact .step line_idle fun line => make_expression (.refl _) rfl rfl rfl
      · exact nested
    refine (Gives.nodeList argument bound).bind fun args areExpressions => ?_
    exact .step (expect_idle _) fun _ => .pure (.refl _) areExpressions

theorem token_gives {shape : Shape Node} {line : Nat} (parts : shape.children = [])
    (demands : shape.demands = []) (expression : shape.isExpression) (unsigned : shape.isUnsigned) :
    GivesExpression (do
      let _ ← advance
      make shape line) := by
  exact .step advance_idle fun _ =>
    make_expression (by rw [parts]) demands expression unsigned

theorem isUnsigned_numeral {token : Token} {value : Literal} (reads : numeral? token = some value) :
    (Shape.literal value : Shape Node).isUnsigned := by
  have whole (base : Nat) (isWhole : (if Lexer.digitsValue base token.lexeme.toList < 2 ^ 63 then
      some (Literal.int (Int64.ofNat (Lexer.digitsValue base token.lexeme.toList))) else none) = some value) :
      (Shape.literal value : Shape Node).isUnsigned := by
    split at isWhole
    · rename_i fits
      obtain rfl := Option.some.inj isWhole
      refine decide_eq_true ?_
      rw [Int64.le_iff_toInt_le, Int64.toInt_ofNat_of_lt fits]
      exact Int.natCast_nonneg _
    · exact nomatch isWhole
  have float (isFloat : (Decimal.toBinary64? token.lexeme).map .float = some value) :
      (Shape.literal value : Shape Node).isUnsigned := by
    obtain ⟨word, -, rfl⟩ := Option.map_eq_some_iff.1 isFloat
    rfl
  unfold numeral? at reads
  dsimp only at reads
  split at reads
  · exact whole 16 reads
  · exact whole 8 reads
  · rcases Option.or_eq_some_iff.1 ((Option.orElse_eq_or ..).symm.trans reads) with isWhole | ⟨-, isFloat⟩
    · exact whole 10 isWhole
    · exact float isFloat
  · exact float reads

theorem number_gives (token : Token) (line : Nat) : GivesExpression (do
    let _ ← advance
    match numeral? token with
    | some value => make (.literal value) line
    | none => do
      let shape ← throw ⟨.invalidNumber token.lexeme, token.span⟩
      make shape line) := by
  refine .step advance_idle fun _ => ?_
  split
  · rename_i reads
    exact make_expression (.refl _) rfl rfl (isUnsigned_numeral reads)
  · exact .throw_bind _

theorem primary_gives (nested : GivesExpression expr) (bound : Nat) :
    GivesExpression (primary expr bound) := by
  refine .step peek_idle fun token => ?_
  simp only [pure_bind]
  split
  · exact number_gives token _
  · exact number_gives token _
  · exact number_gives token _
  · exact number_gives token _
  · exact token_gives rfl rfl rfl rfl
  · exact token_gives rfl rfl rfl rfl
  · exact token_gives rfl rfl rfl rfl
  · exact token_gives rfl rfl rfl rfl
  · exact token_gives rfl rfl rfl rfl
  · exact token_gives rfl rfl rfl rfl
  · exact token_gives rfl rfl rfl rfl
  · exact token_gives rfl rfl rfl rfl
  · refine .step advance_idle fun _ => nested.bind fun inner _ => ?_
    exact .step (expect_idle _) fun _ => make_expression (.refl _) rfl rfl rfl
  · exact .step advance_idle fun _ => .step expectAnyName_idle fun name =>
      make_expression (.refl _) rfl rfl rfl
  · refine .step advance_idle fun _ => .step (typeName_idle bound) fun name => ?_
    refine .step (eat_idle _) fun found => ?_
    split
    · exact (arguments_gives nested bound).bind fun args _ => make_expression (.refl _) rfl rfl rfl
    · exact make_expression (.refl _) rfl rfl rfl
  · exact .stop_bind _

theorem suffixes_gives (nested : GivesExpression expr) (bound : Nat) (before : Node)
    (expression : before.shape.isExpression) :
    Gives [before] (suffixes expr bound before) (fun node => [node]) fun node =>
      node.shape.isExpression := by
  induction bound generalizing before with
  | zero => exact .exhausted
  | succ bound ih =>
    refine .step peek_idle fun token => ?_
    split
    · refine .step advance_idle fun _ => .step expectAnyName_idle fun name => ?_
      exact Gives.bind (make_expression (.refl _) rfl rfl rfl) fun node isExpression =>
        ih node isExpression
    · refine .step advance_idle fun _ => .take (arguments_gives nested bound) fun args fine => ?_
      exact Gives.bind (make_call fine (.refl _)) fun node isExpression =>
        ih node isExpression
    · exact .pure (.refl _) expression

theorem chain_gives (nested : GivesExpression expr) (bound : Nat) :
    GivesExpression (chain expr bound) :=
  (primary_gives nested bound).bind fun before => suffixes_gives nested bound before

end Nested

section Operators

variable {expr : (power : Nat) → Reader Node}

theorem operand_gives (nested : ∀ power, GivesExpression (expr power)) (bound : Nat) :
    GivesExpression (operand expr bound) := by
  refine .step peekKind_idle fun kind => ?_
  split
  · exact chain_gives (nested 0) bound
  · refine .step advance_idle fun token => (nested _).bind fun inner _ => ?_
    exact make_expression (.refl _) rfl rfl rfl

theorem operators_gives (nested : ∀ power, GivesExpression (expr power)) (power bound : Nat)
    (left : Node) (expression : left.shape.isExpression) :
    Gives [left] (operators expr power bound left) (fun node => [node]) fun node =>
      node.shape.isExpression := by
  induction bound generalizing left with
  | zero => exact .exhausted
  | succ bound ih =>
    refine .step peekKind_idle fun kind => ?_
    split
    · exact .pure (.refl _) expression
    · split
      · exact .pure (.refl _) expression
      · refine .step advance_idle fun token => .take (nested _) fun right _ => ?_
        exact Gives.bind (make_expression (.refl _) rfl rfl rfl) fun node isExpression =>
          ih node isExpression

end Operators

theorem read_gives (bound power : Nat) : GivesExpression (read bound power) := by
  induction bound generalizing power with
  | zero => exact .exhausted
  | succ bound ih =>
    exact (operand_gives ih _).bind fun left => operators_gives ih power _ left

theorem whole_gives (bound : Nat) : GivesExpression (whole bound) := read_gives bound 0

theorem target_gives (bound : Nat) : GivesExpression (target bound) := by
  cases bound with
  | zero => exact .exhausted
  | succ bound => exact chain_gives (read_gives bound 0) _

end Expression

namespace Statement

open Reader Expression ModuleText

abbrev GivesNode (reader : Reader Node) : Prop :=
  Gives [] reader (fun node => [node]) fun node => isModuleDim node = false

abbrev GivesNodes (reader : Reader (List Node)) : Prop :=
  Gives [] reader (fun nodes => nodes) fun nodes => ∀ node ∈ nodes, isModuleDim node = false

abbrev GivesBlock (reader : (TokenKind → Bool) → Reader Node) : Prop :=
  ∀ stops, Gives [] (reader stops) (fun node => [node]) fun node => node.shape.family = .block

section Making

variable {held : List Node} {shape : Shape Node} {line lastLine : Nat}

theorem make_node (parts : shape.children.Subperm held)
    (regular : ∀ info, (Node.mk info shape).Regular)
    (plain : ∀ info, isModuleDim (.mk info shape) = false) :
    Gives held (make shape line lastLine) (fun node => [node]) fun node =>
      isModuleDim node = false := by
  refine (Gives.make parts regular).mono (fun _ _ => .refl _) fun node isShape => ?_
  rcases node with ⟨info, other⟩
  obtain rfl : other = shape := isShape
  exact plain info

theorem make_plain (parts : shape.children.Subperm held) (demands : shape.demands = [])
    (unsigned : shape.isUnsigned) (plain : ∀ info, isModuleDim (.mk info shape) = false) :
    Gives held (make shape line lastLine) (fun node => [node]) fun node =>
      isModuleDim node = false :=
  make_node parts (fun _ => .ofNone demands unsigned) plain

theorem make_valued {values : List Node}
    (areExpressions : ∀ value ∈ values, value.shape.isExpression)
    (parts : shape.children.Subperm held) (demands : shape.demands = values.map (.expression, ·))
    (unsigned : shape.isUnsigned) (plain : ∀ info, isModuleDim (.mk info shape) = false) :
    Gives held (make shape line lastLine) (fun node => [node]) fun node =>
      isModuleDim node = false :=
  make_node parts (fun _ => .ofValues areExpressions demands unsigned) plain

def IsVariable (site : Site) (node : Node) : Prop :=
  ∃ decl, node.shape = site.shape decl ∧ decl.marks.moduleDim = false

theorem IsVariable.plain {site : Site} {node : Node} (isVariable : IsVariable site node) :
    isModuleDim node = false := by
  obtain ⟨decl, shape, unmarked⟩ := isVariable
  unfold isModuleDim Node.varDecl?
  rw [shape]
  cases site with
  | member | procedure => exact unmarked

theorem make_variable {site : Site} {decl : VarDecl Node}
    (init : ∀ value ∈ decl.init.toList, value.shape.isExpression)
    (parts : (Shape.varParts decl).Subperm held) (unmarked : decl.marks.moduleDim = false) :
    Gives held (make (site.shape decl) line lastLine) (fun node => [node]) (IsVariable site) := by
  refine (Gives.make ?_ fun _ => ?_).mono (fun _ _ => .refl _) fun _ isShape =>
    ⟨decl, isShape, unmarked⟩
  · cases site with
    | member | procedure => exact parts
  · cases site with
    | member | procedure => exact .ofValues init rfl rfl

theorem singleton {reader : Reader Node} (gives : Gives held reader (fun node => [node]) fun node =>
      isModuleDim node = false) :
    Gives held (List.singleton <$> reader) (fun nodes => nodes) fun nodes =>
      ∀ node ∈ nodes, isModuleDim node = false :=
  gives.map (fun _ _ => .refl _) fun _ plain _ listed => List.mem_singleton.1 listed ▸ plain

end Making

theorem arrayBounds_gives (bound : Nat) :
    Gives [] (arrayBounds bound) (·.bounds) fun _ => True := by
  refine .step (expect_idle _) fun _ => .step (eat_idle _) fun found => ?_
  split
  · exact .pure (.refl _) trivial
  · refine (Gives.nodeList (whole_gives bound) bound).bind fun bounds _ => ?_
    exact .step (expect_idle _) fun _ => .pure (.refl _) trivial

theorem variableDecl_gives (visibility : Visibility) (site : Site) (bound : Nat) :
    Gives [] (variableDecl visibility site bound) (fun node => [node]) (IsVariable site) := by
  refine .step line_idle fun line => .step expectName_idle fun name => ?_
  refine .step (at?_idle _) fun isArray => ?_
  refine .branch (fun array => Shape.varParts { name, array }) (fun _ => True) ?_ ?_
    fun array _ => ?_
  · refine (arrayBounds_gives bound).map (fun array _ => ?_) fun _ _ => trivial
    simp [Shape.varParts, List.Subperm.refl]
  · exact .pure (.refl _) trivial
  · refine .step (eat_idle _) fun typed => ?_
    split
    · refine .step (eat_idle _) fun asNew => .step (typeName_idle bound) fun typeName => ?_
      exact make_variable (fun _ absurd => nomatch absurd) (.refl _) rfl
    · exact make_variable (fun _ absurd => nomatch absurd) (.refl _) rfl

theorem constantDecl_gives (visibility : Visibility) (site : Site) (bound : Nat) :
    Gives [] (constantDecl visibility site bound) (fun node => [node]) (IsVariable site) := by
  refine .step line_idle fun line => .step expectName_idle fun name => ?_
  refine .step (eat_idle _) fun typed => ?_
  refine .branch (fun _ => []) (fun _ => True) (.idle ((typeName_idle bound).map _))
    (.idle (.pure _)) fun typeName _ => ?_
  refine .step (expect_idle _) fun _ => (whole_gives bound).bind fun init isExpression => ?_
  exact make_variable (fun _ isInit => List.mem_singleton.1 isInit ▸ isExpression) (.refl _) rfl

theorem asCall_gives {expr : Node} (expression : expr.shape.isExpression) :
    Gives [expr] (asCall expr) (fun node => [node]) fun node => node.shape.isExpression := by
  unfold asCall
  split
  · exact .pure (.refl _) expression
  · exact make_call (fun _ absurd => nomatch absurd) (.refl _)

theorem assignment_gives (isSet : Bool) (bound : Nat) : GivesNode (assignment isSet bound) := by
  refine .step line_idle fun line => (target_gives bound).bind fun target _ => ?_
  refine .step (expect_idle _) fun _ => .take (whole_gives bound) fun value isExpression => ?_
  exact make_valued (List.forall_mem_singleton.2 isExpression) (.refl _) rfl rfl fun _ => rfl

theorem bareArguments_gives (bound : Nat) : GivesExpressions (bareArguments bound) := by
  have argument : GivesExpression (bareArgument bound) := by
    refine .step peekKind_idle fun kind => ?_
    split
    · exact .step line_idle fun line => make_expression (.refl _) rfl rfl rfl
    · exact whole_gives bound
  exact Gives.nodeList argument bound

theorem simple_gives (bound : Nat) : GivesNode (simple bound) := by
  refine .step line_idle fun line => (target_gives bound).bind fun target expression => ?_
  refine .step (eat_idle _) fun assigns => ?_
  split
  · refine .take (whole_gives bound) fun value isExpression => ?_
    exact make_valued (List.forall_mem_singleton.2 isExpression) (.refl _) rfl rfl fun _ => rfl
  · refine .step peekKind_idle fun kind => ?_
    split
    · exact (asCall_gives expression).bind fun call _ => make_plain (.refl _) rfl rfl fun _ => rfl
    · refine .step (at?_idle _) fun isComma => ?_
      dsimp only
      split
      · -- The parentheses of the call are those of its first argument.
        rename_i callee arg shape
        have parts : target.children = [callee, arg] := by
          rw [Node.children, shape]
          rfl
        refine .parts ?_
        rw [parts]
        refine Gives.bind (.make_keeping [callee] (.refl _) fun _ => .ofNone rfl rfl)
          fun first isParen => ?_
        refine .step advance_idle fun _ => .take (bareArguments_gives bound) fun args fine => ?_
        have isExpression : first.shape.isExpression := by
          rw [isParen]
          rfl
        exact Gives.bind (make_call (List.forall_mem_cons.2 ⟨isExpression, fine⟩) (.refl _))
          fun call _ => make_plain (.refl _) rfl rfl fun _ => rfl
      · refine .take (bareArguments_gives bound) fun args fine => ?_
        exact Gives.bind (make_call fine (.refl _)) fun call _ => make_plain (.refl _) rfl rfl fun _ => rfl

theorem resized_gives (preserve : Bool) (bound : Nat) : GivesNode (resized preserve bound) := by
  refine .step line_idle fun line => .step expectName_idle fun name => ?_
  refine Gives.bind (make_expression (.refl _) rfl rfl rfl) fun target _ => ?_
  exact .take (arrayBounds_gives bound) fun array _ => make_plain (.refl _) rfl rfl fun _ => rfl

section Nested

variable {statement : Reader (List Node)}

theorem blockItems_gives (nested : GivesNodes statement) (stops : TokenKind → Bool) (bound : Nat) :
    GivesNodes (blockItems statement stops bound) := by
  induction bound with
  | zero => exact .exhausted
  | succ bound ih =>
    refine .step skipSeparators_idle fun _ => .step peekKind_idle fun kind => ?_
    split
    · exact .pure (.refl _) fun _ absurd => nomatch absurd
    · have items : GivesNodes (do
          let items ← statement
          expectEnd
          return items) :=
        nested.bind fun items plain => .step expectEnd_idle fun _ => .pure (.refl _) plain
      have rest : GivesNodes (do
          let items ← recovering (do
            let items ← statement
            expectEnd
            return items) []
          let rest ← blockItems statement stops bound
          return items ++ rest) := by
        refine (items.recovering rfl fun _ absurd => nomatch absurd).bind fun items plain => ?_
        exact .take ih fun later plainLater => .pure (.refl _) fun node listed =>
          (List.mem_append.1 listed).elim (plain node) (plainLater node)
      split
      · exact .stop_bind _
      · exact rest

theorem block_gives (nested : GivesNodes statement) (bound : Nat) :
    GivesBlock (block statement bound) := by
  intro stops
  refine .step line_idle fun first => (blockItems_gives nested stops bound).bind fun items _ => ?_
  refine .step lastLine_idle fun last => ?_
  refine .mono (.make (.refl _) fun _ => .ofNone rfl rfl) (fun _ _ => .refl _) fun _ isShape => ?_
  rw [isShape]
  rfl

theorem inlineItems_gives (nested : GivesNodes statement) (bound : Nat) :
    GivesNodes (inlineItems statement bound) := by
  induction bound with
  | zero => exact .exhausted
  | succ bound ih =>
    refine .step peekKind_idle fun kind => ?_
    have none : GivesNodes (pure []) := .pure (.refl _) fun _ absurd => nomatch absurd
    split
    · exact none
    · exact none
    · exact none
    · exact none
    · refine nested.bind fun items plain => .step (eat_idle _) fun more => ?_
      split
      · exact .take ih fun later plainLater => .pure (.refl _) fun node listed =>
          (List.mem_append.1 listed).elim (plain node) (plainLater node)
      · exact .pure (.refl _) plain

theorem singleLineIf_gives (nested : GivesNodes statement) (bound line : Nat) (cond : Node) :
    Gives [cond] (singleLineIf statement bound line cond) (fun node => [node]) fun node =>
      isModuleDim node = false := by
  have close (body : Node) (otherwise : Option Node) :
      Gives ([cond, body] ++ otherwise.toList) (do
        if (← at? (.keyword .kwEnd)) && (← peekSecond) == .keyword .kwIf then
          let _ ← advance
          let _ ← advance
        make (.ifStmt true [⟨cond, body⟩] otherwise) line) (fun node => [node]) fun node =>
          isModuleDim node = false := by
    refine .step (at?_idle _) fun isEnd => .step peekSecond_idle fun second => ?_
    dsimp only
    split
    · exact .step advance_idle fun _ => .step advance_idle fun _ =>
        make_plain (.refl _) rfl rfl fun _ => rfl
    · exact make_plain (.refl _) rfl rfl fun _ => rfl
  refine .take (inlineItems_gives nested bound) fun items _ => ?_
  refine Gives.bind (.make_keeping [cond] (.refl _) fun _ => .ofNone rfl rfl) fun body _ => ?_
  refine .step (eat_idle _) fun otherwise => ?_
  dsimp only
  split
  · refine .take (inlineItems_gives nested bound) fun items _ => ?_
    have made : Gives ([cond, body] ++ items) (some <$> make (.block items) line)
        (fun otherwise => [cond, body] ++ otherwise.toList) fun _ => True :=
      .map (.make_keeping [cond, body] (.refl _) fun _ => .ofNone rfl rfl) (fun _ _ => .refl _)
        fun _ _ => trivial
    exact made.bind fun otherwise _ => close body otherwise
  · exact close body none

theorem ifArms_gives {block : (TokenKind → Bool) → Reader Node} {expr : Reader Node}
    (nested : GivesBlock block) (condition : GivesExpression expr) (stops : TokenKind → Bool)
    (bound : Nat) (arms : List (IfArm Node)) (otherwise : Option Node) :
    Gives (arms.flatMap (fun arm => [arm.cond, arm.body]) ++ otherwise.toList)
      (ifArms block stops expr bound arms otherwise)
      (fun (arms, otherwise) =>
        arms.flatMap (fun arm => [arm.cond, arm.body]) ++ otherwise.toList) fun _ => True := by
  induction bound generalizing arms otherwise with
  | zero => exact .exhausted
  | succ bound ih =>
    refine .step (eat_idle _) fun isElseIf => ?_
    split
    · refine .take condition fun cond _ => .step (expect_idle _) fun _ => ?_
      refine .take (nested stops) fun body _ => ?_
      refine (ih (arms ++ [⟨cond, body⟩]) otherwise).hold ?_
      simp only [List.flatMap_append, List.flatMap_singleton, List.append_assoc]
      exact (List.perm_append_comm.append_left _).subperm
    · refine .step (eat_idle _) fun isElse => ?_
      split
      · refine .take (nested _) fun body _ => (ih arms (some body)).hold ?_
        exact ((List.sublist_append_left _ _).append_right _).subperm
      · exact .pure (.refl _) trivial

theorem ifStmt_gives (nested : GivesNodes statement) (bound : Nat) :
    GivesNode (ifStmt statement bound) := by
  refine .step (expect_idle _) fun first => (whole_gives bound).bind fun cond _ => ?_
  refine .step (expect_idle _) fun _ => .step peekKind_idle fun kind => ?_
  split
  · exact singleLineIf_gives nested bound _ cond
  · refine .take (block_gives nested bound _) fun body _ => ?_
    refine (ifArms_gives (block_gives nested bound) (whole_gives bound) _ bound
      [⟨cond, body⟩] none).bind fun (arms, otherwise) _ => ?_
    refine .step (expect_idle _) fun _ => .step (expect_idle _) fun _ => ?_
    exact .step lastLine_idle fun last => make_plain (.refl _) rfl rfl fun _ => rfl

theorem caseTest_gives (bound : Nat) :
    Gives [] (caseTest bound) CasePattern.parts fun _ => True := by
  refine .step (eat_idle _) fun isComparison => ?_
  split
  · refine .step peekKind_idle fun kind => ?_
    split
    · exact .stop _
    · refine .step advance_idle fun _ => (whole_gives bound).bind fun value _ => ?_
      exact .pure (.refl _) trivial
  · refine (whole_gives bound).bind fun low _ => .step (eat_idle _) fun isRange => ?_
    split
    · exact .take (whole_gives bound) fun high _ => .pure (.refl _) trivial
    · exact .pure (.refl _) trivial

def caseParts (cases : List (CaseArm Node) × Option Node) : List Node :=
  cases.1.flatMap (fun arm => arm.tests.flatMap CasePattern.parts ++ [arm.body]) ++
    cases.2.toList

theorem caseArms_gives {block : (TokenKind → Bool) → Reader Node}
    {tests : Reader (List (CasePattern Node))} (nested : GivesBlock block)
    (tested : Gives [] tests (List.flatMap CasePattern.parts) fun _ => True) (bound : Nat) :
    Gives [] (caseArms block tests bound) caseParts fun _ => True := by
  induction bound with
  | zero => exact .exhausted
  | succ bound ih =>
    refine .step (eat_idle _) fun isCase => ?_
    split
    · refine .step (eat_idle _) fun isElse => ?_
      split
      · refine .step expectEnd_idle fun _ => (nested _).bind fun body _ => ?_
        exact .pure (.refl _) trivial
      · refine tested.bind fun tests _ => .step expectEnd_idle fun _ => ?_
        refine .take (nested _) fun body _ => .take ih fun (arms, otherwise) _ => ?_
        refine .pure ?_ trivial
        simp only [caseParts, List.flatMap_cons, List.append_assoc]
        exact .refl _
    · exact .pure (.refl _) trivial

theorem selectStmt_gives (nested : GivesNodes statement) (bound : Nat) :
    GivesNode (selectStmt statement bound) := by
  refine .step (expect_idle _) fun first => .step (expect_idle _) fun _ => ?_
  refine (whole_gives bound).bind fun subject _ => .step expectEnd_idle fun _ => ?_
  refine .step skipSeparators_idle fun _ => ?_
  have tested : Gives [] (commaList (caseTest bound) bound) (List.flatMap CasePattern.parts)
      fun _ => True :=
    (Gives.commaList (caseTest_gives bound) bound).mono (fun _ _ => .refl _) fun _ _ => trivial
  refine .take (caseArms_gives (block_gives nested bound) tested bound)
    fun (arms, otherwise) _ => ?_
  refine .step (expect_idle _) fun _ => .step (expect_idle _) fun _ => ?_
  exact .step lastLine_idle fun last => make_plain (.refl _) rfl rfl fun _ => rfl

theorem loopVariable_gives : GivesExpression loopVariable :=
  .step line_idle fun _ => .step expectName_idle fun _ => make_expression (.refl _) rfl rfl rfl

theorem forStmt_gives (nested : GivesNodes statement) (bound : Nat) :
    GivesNode (forStmt statement bound) := by
  refine .step (expect_idle _) fun first => ?_
  have close (shape : Shape Node) {values : List Node}
      (areExpressions : ∀ value ∈ values, value.shape.isExpression)
      (demands : shape.demands = values.map (.expression, ·))
      (unsigned : shape.isUnsigned) (plain : ∀ info, isModuleDim (.mk info shape) = false) :
      Gives shape.children (do
        let _ ← expect (.keyword .kwNext)
        let _ ← eat .identifier
        make shape first.span.line (← lastLine)) (fun node => [node]) fun node =>
          isModuleDim node = false := by
    refine .step (expect_idle _) fun _ => .step (eat_idle _) fun _ => ?_
    exact .step lastLine_idle fun last => make_valued areExpressions (.refl _) demands unsigned plain
  refine .step (eatWord_idle _) fun isEach => ?_
  dsimp only
  split
  · refine loopVariable_gives.bind fun item _ => .step (expectWord_idle _) fun _ => ?_
    refine .take (whole_gives bound) fun collection _ => ?_
    refine .take (block_gives nested bound _) fun body _ => ?_
    rw [pure_bind]
    exact close (.forEach item collection body) (List.forall_mem_nil _) rfl rfl fun _ => rfl
  · refine loopVariable_gives.bind fun counter _ => .step (expect_idle _) fun _ => ?_
    refine .take (whole_gives bound) fun low isLow => .step (expect_idle _) fun _ => ?_
    refine .take (whole_gives bound) fun high isHigh => .step (eatWord_idle _) fun isStep => ?_
    have bounds : ∀ value ∈ [low, high], value.shape.isExpression :=
      List.forall_mem_cons.2 ⟨isLow, List.forall_mem_singleton.2 isHigh⟩
    refine .branch (fun (step : Option Node) => [counter, low, high] ++ step.toList) (fun _ => True) ?_ ?_
      fun step _ => ?_
    · exact (whole_gives bound).frame.map (fun _ _ => .refl _) fun _ _ => trivial
    · exact .pure (.refl _) trivial
    · refine .take (block_gives nested bound _) fun body _ => ?_
      rw [pure_bind]
      exact close (.forRange counter low high step body) bounds rfl rfl fun _ => rfl

theorem loopTest?_gives (post : Bool) (bound : Nat) : Gives [] (loopTest? post bound)
    (fun test => (test.map (·.cond)).toList) fun _ => True := by
  refine .step (eat_idle _) fun isWhile => ?_
  split
  · exact (whole_gives bound).bind fun cond _ => .pure (.refl _) trivial
  · refine .step (eatWord_idle _) fun isUntil => ?_
    split
    · exact (whole_gives bound).bind fun cond _ => .pure (.refl _) trivial
    · exact .pure (.refl _) trivial

theorem make_loop {test : Option (LoopGuard Node)} {body : Node} {held : List Node}
    {line lastLine : Nat} (parts : ((test.map (·.cond)).toList ++ [body]).Subperm held) :
    Gives held (make (.loop test body) line lastLine) (fun node => [node]) fun node =>
      isModuleDim node = false := by
  refine make_plain ?_ rfl rfl fun _ => rfl
  refine .trans ?_ parts
  cases test with
  | none => exact .refl _
  | some test =>
    unfold Shape.children
    dsimp only
    split
    · exact (List.Perm.swap _ _ _).subperm
    · exact .refl _

theorem doStmt_gives (nested : GivesNodes statement) (bound : Nat) :
    GivesNode (doStmt statement bound) := by
  refine .step (expect_idle _) fun first => (loopTest?_gives false bound).bind fun before _ => ?_
  refine .take (block_gives nested bound _) fun body _ => .step (expect_idle _) fun _ => ?_
  refine .branch (fun test => (test.map (·.cond)).toList ++ [body]) (fun _ => True) ?_ ?_
    fun test _ => .step lastLine_idle fun last => make_loop (.refl _)
  · exact .pure (.refl _) trivial
  · refine (loopTest?_gives true bound).frame.mono (fun test _ => ?_) fun _ _ => trivial
    rw [List.append_assoc]
    exact List.perm_append_comm.subperm.trans (List.sublist_append_right _ _).subperm

theorem whileStmt_gives (nested : GivesNodes statement) (bound : Nat) :
    GivesNode (whileStmt statement bound) := by
  refine .step (expect_idle _) fun first => (whole_gives bound).bind fun cond _ => ?_
  refine .take (block_gives nested bound _) fun body _ => .step (expect_idle _) fun _ => ?_
  exact .step lastLine_idle fun last => make_loop (.refl _)

theorem withStmt_gives (nested : GivesNodes statement) (bound : Nat) :
    GivesNode (withStmt statement bound) := by
  refine .step (expect_idle _) fun first => (whole_gives bound).bind fun subject _ => ?_
  refine .take (block_gives nested bound _) fun body _ => .step (expect_idle _) fun _ => ?_
  exact .step (expect_idle _) fun _ => .step lastLine_idle fun last =>
    make_plain (.refl _) rfl rfl fun _ => rfl

end Nested

theorem onErrorStmt_gives : GivesNode onErrorStmt := by
  refine .step (expect_idle _) fun first => .step (expectWord_idle _) fun _ => ?_
  refine .step (eatWord_idle _) fun resumes => ?_
  split
  · exact .step (expect_idle _) fun _ => make_plain (.refl _) rfl rfl fun _ => rfl
  · refine .step (expect_idle _) fun _ => .step (expect_idle _) fun line => ?_
    dsimp only
    split
    · exact .throw_bind _
    · exact make_plain (.refl _) rfl rfl fun _ => rfl

theorem exitStmt_gives : GivesNode exitStmt := by
  refine .step (expect_idle _) fun first => .step advance_idle fun token => ?_
  simp only [pure_bind]
  split
  · exact make_plain (.refl _) rfl rfl fun _ => rfl
  · exact make_plain (.refl _) rfl rfl fun _ => rfl
  · exact make_plain (.refl _) rfl rfl fun _ => rfl
  · exact make_plain (.refl _) rfl rfl fun _ => rfl
  · exact make_plain (.refl _) rfl rfl fun _ => rfl
  · exact .throw_bind _

theorem read_gives (bound : Nat) : GivesNodes (read bound) := by
  induction bound with
  | zero => exact .exhausted
  | succ bound ih =>
    refine .step peek_idle fun token => ?_
    split
    · refine .step advance_idle fun _ => Gives.nodeList ?_ _
      exact (variableDecl_gives _ _ _).mono (fun _ _ => .refl _) fun _ => IsVariable.plain
    · refine .step advance_idle fun _ => Gives.nodeList ?_ _
      exact (constantDecl_gives _ _ _).mono (fun _ _ => .refl _) fun _ => IsVariable.plain
    · refine .step advance_idle fun _ => .step (eatWord_idle _) fun preserve => ?_
      exact Gives.nodeList (resized_gives _ _) _
    · exact singleton (ifStmt_gives ih _)
    · exact singleton (selectStmt_gives ih _)
    · exact singleton (forStmt_gives ih _)
    · exact singleton (doStmt_gives ih _)
    · exact singleton (whileStmt_gives ih _)
    · exact singleton (withStmt_gives ih _)
    · exact singleton onErrorStmt_gives
    · exact singleton exitStmt_gives
    · exact .step advance_idle fun _ => singleton (assignment_gives _ _)
    · refine .step advance_idle fun _ => (target_gives _).bind fun target expression => ?_
      refine (asCall_gives expression).bind fun call _ => ?_
      exact singleton (make_plain (.refl _) rfl rfl fun _ => rfl)
    · refine .step advance_idle fun _ => (target_gives _).bind fun target _ => ?_
      exact singleton (make_plain (.refl _) rfl rfl fun _ => rfl)
    · refine .step peekSecond_idle fun second => ?_
      split
      · exact .step advance_idle fun _ => singleton (assignment_gives _ _)
      · exact singleton (simple_gives _)
    · exact singleton (simple_gives _)
    · exact .stop _

end Statement

end ScriptMigration
