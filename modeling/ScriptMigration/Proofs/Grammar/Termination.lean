import ScriptMigration.Grammar.Module
import ScriptMigration.Proofs.Grammar.ModuleLayers
import ScriptMigration.Proofs.Grammar.StatementTurns
import ScriptMigration.Proofs.Token.Lossless

/-! Every text is read to its end. Each turn of a loop that is followed by another one has passed a
token, also where it ended in a fault, and so has each way into a nested construct; hence the bounds
are never used up, and a text is a module or has faults. -/
namespace ScriptMigration

open Reader

namespace Declaration

open Statement Expression

variable {deep : Prop} {cost bound fuel fuel' : Nat}

theorem parameterType_agrees (line : Nat) (isOptional : Bool) (passing : ParamMode) (name : String)
    (paramArray array : Bool) (bounds : Bounds deep bound fuel fuel') :
    AgreesOn deep 0 bound fuel fuel'
      (parameterType line isOptional passing name paramArray array) := by
  refine (eat_agrees _).step fun typed => ?_
  refine .branch ((typeName_agrees bounds).free.map some) (.pure none) fun typeName => ?_
  refine (eat_agrees _).step fun valued => ?_
  exact .branch ((whole_agrees bounds).free.map some) (.pure none) fun default => make_agrees _ _ _

theorem parameterName_agrees (line : Nat) (isOptional : Bool) (passing : ParamMode)
    (bounds : Bounds deep bound fuel fuel') :
    AgreesOn deep 1 bound fuel fuel' (parameterName line isOptional passing) := by
  refine (eat_agrees _).step fun paramArray => expectName_agrees.past fun name => ?_
  refine (eat_agrees _).step fun isArray => ?_
  split
  · exact (expect_mark _).free.step fun _ => parameterType_agrees _ _ _ _ _ _ bounds
  · exact parameterType_agrees _ _ _ _ _ _ bounds

theorem parameter_agrees (bounds : Bounds deep bound fuel fuel') :
    Agrees deep 1 bound (parameter fuel) (parameter fuel') := by
  rw [parameter_eq, parameter_eq]
  refine line_agrees.step fun line => (eat_agrees _).step fun isOptional => ?_
  refine (eat_agrees _).step fun isByVal => ?_
  split
  · exact parameterName_agrees _ _ _ bounds
  · exact (eat_agrees _).step fun _ => parameterName_agrees _ _ _ bounds

theorem parameters_agrees (bounds : Bounds deep bound fuel fuel') :
    Agrees deep 1 bound (parameters fuel) (parameters fuel') := by
  refine (expect_mark _).past fun _ => (eat_agrees _).step fun none => ?_
  split
  · exact .pure _
  · refine (commaList_agrees (parameter_agrees bounds) (Nat.le_refl 1) bounds).free.step fun params => ?_
    exact (expect_mark _).free.step fun _ => .pure _

theorem procedureKind_agrees (opening : TokenKind) : Passing deep 0 bound (procedureKind opening) := by
  unfold procedureKind
  split
  · exact .pure _
  · exact .pure _
  · refine (eat_agrees _).step fun isSet => ?_
    split
    · exact .pure _
    · refine (eatWord_agrees _).step fun isGet => ?_
      split
      · exact .pure _
      · refine (eatWord_agrees _).step fun isLet => ?_
        split
        · exact .pure _
        · exact peekKind_agrees.step fun _ => .stop _ nofun

theorem procedure_agrees (visibility : Visibility) (marks : DeclMarks)
    (bounds : Bounds deep bound fuel fuel') :
    Agrees deep 1 bound (procedure visibility marks fuel) (procedure visibility marks fuel') := by
  refine advance_agrees.step fun first => (procedureKind_agrees _).step fun kind => ?_
  refine expectName_agrees.past fun name => (at?_agrees _).step fun hasParams => ?_
  refine .branch (parameters_agrees bounds).free (.pure []) fun params => ?_
  refine (eat_agrees _).step fun typed => ?_
  refine .branch ((typeName_agrees bounds).free.map some) (.pure none) fun returnType => ?_
  refine expectEnd_agrees.step fun _ => ?_
  refine (block_agrees (Statement.read_agrees bounds) bounds _).step fun body => ?_
  refine (expect_keyword _).free.step fun _ => (expect_keyword _).free.step fun _ => ?_
  refine lastLine_agrees.step fun last => (make_agrees _ _ _).step fun method => ?_
  exact expectEnd_agrees.step fun _ => .pure _

theorem members_agrees (bounds : Bounds deep bound fuel fuel') :
    Agrees deep 1 bound (members fuel) (members fuel') := by
  have terminated {item item' : Reader Node} (each : Agrees deep 1 bound item item') :
      Agrees deep 1 bound (do
        let nodes ← commaList item fuel
        expectEnd
        return nodes) (do
        let nodes ← commaList item' fuel'
        expectEnd
        return nodes) :=
    (commaList_agrees each (Nat.le_refl 1) bounds).past fun nodes =>
      expectEnd_agrees.step fun _ => .pure _
  have declared (visibility : Visibility) (default : Bool) :
      AgreesOn deep 1 bound fuel fuel' (declarations visibility default) := by
    refine peekKind_agrees.step fun kind => ?_
    split
    · exact (procedure_agrees _ _ bounds).map _
    · exact (procedure_agrees _ _ bounds).map _
    · exact (procedure_agrees _ _ bounds).map _
    · exact advance_agrees.step fun _ => terminated (constantDecl_agrees _ _ bounds)
    · exact advance_agrees.step fun _ => terminated (variableDecl_agrees _ _ bounds)
    · split
      · exact terminated (variableDecl_agrees _ _ bounds)
      · exact .stop _ fun absurd => by cases absurd
    · exact .stop _ fun absurd => by cases absurd
  refine (eat_agrees _).step fun isPublic => ?_
  dsimp only
  split
  · exact (eatWord_agrees _).step fun default => declared .everyone default
  · refine (eat_agrees _).step fun isPrivate => ?_
    split
    · exact declared .owner false
    · exact declared .undecided false

def memberTurn (nested : Reader Node) (className : String) (first : Span) (fuel : Nat)
    (next : Reader (List Node)) : Reader (List Node) := do
  skipSeparators
  let kind ← peekKind
  if kind == .keyword .kwEnd then return []
  if kind == .endOfText then throw ⟨.unclosedClass className, first⟩
  let found ← recovering (
    if kind == .keyword .kwClass then List.singleton <$> nested
    else if startsMember kind then members (fuel + 1)
    else stop (.expectedMember className kind)) []
  return found ++ (← next)

theorem classMembers_succ (nested : Reader Node) (className : String) (first : Span) (fuel : Nat) :
    classMembers nested className first (fuel + 1) =
      memberTurn nested className first fuel (classMembers nested className first fuel) := rfl

variable {nested nested' : Reader Node}

theorem memberTurn_agrees (inner : Agrees deep 1 (bound + 1) nested nested') (className : String)
    (first : Span) (bounds : Bounds deep (bound + 1) (fuel + 1) (fuel' + 1))
    {next next' : Reader (List Node)} (later : Agrees deep 0 bound next next') :
    Agrees deep 0 (bound + 1) (memberTurn nested className first fuel next)
      (memberTurn nested' className first fuel' next') := by
  refine .separated fun state sound few inLine => ?_
  have isKind : peekKind state = .ok state.current.kind state := rfl
  refine .looks sound isKind ?_
  split
  · exact Agrees.pure _ state sound few
  by_cases isEnd : state.current.kind = .endOfText
  · rw [isEnd]
    exact Agrees.throw_step _ nofun state sound few
  have goesOn : (state.current.kind == .endOfText) = false := beq_eq_false_iff_ne.2 isEnd
  dsimp only
  rw [goesOn]
  have member (kind : TokenKind) : Agrees deep 1 (bound + 1)
      (if kind == .keyword .kwClass then List.singleton <$> nested
        else if startsMember kind then members (fuel + 1)
        else stop (.expectedMember className kind))
      (if kind == .keyword .kwClass then List.singleton <$> nested'
        else if startsMember kind then members (fuel' + 1)
        else stop (.expectedMember className kind)) := by
    split
    · exact inner.map _
    · split
      · exact members_agrees bounds
      · exact .stop _ nofun
  have found := AgreesAt.recovering sound isEnd inLine (member state.current.kind state sound few) []
  refine AgreesAt.cheaper (found.ahead fun found => ?_) (Nat.zero_le 1)
  exact (later.restrict (Nat.le_of_lt_succ few)).step fun rest => .pure _

theorem classMembers_agrees (inner : Agrees deep 1 bound nested nested') (className : String)
    (first : Span) (bounds : Bounds deep bound fuel fuel') :
    Agrees deep 0 bound (classMembers nested className first fuel)
      (classMembers nested' className first fuel') :=
  .turns rfl rfl (fun within bounds later =>
    memberTurn_agrees (inner.restrict within) className first bounds later) bounds

def classTurn (fuel : Nat) (next : Reader Node) : Reader Node := do
  let first ← expect (.keyword .kwClass)
  let name ← expectName
  expectEnd
  let members ← classMembers next name first.span (fuel + 1)
  let _ ← expect (.keyword .kwEnd)
  let _ ← expect (.keyword .kwClass)
  let decl ← make (.type { name, members }) first.span.line (← lastLine)
  expectEnd
  return decl

theorem classDecl_succ (fuel : Nat) : classDecl (fuel + 1) = classTurn fuel (classDecl fuel) := rfl

theorem classTurn_agrees (inner : Agrees deep 1 bound nested nested')
    (bounds : Bounds deep (bound + 1) (fuel + 1) (fuel' + 1)) :
    Agrees deep 1 (bound + 1) (classTurn fuel nested) (classTurn fuel' nested') := by
  refine (expect_keyword _).ahead fun first => expectName_agrees.free.step fun name => ?_
  refine expectEnd_agrees.step fun _ => ?_
  refine (classMembers_agrees inner name _ (bounds.restrict (Nat.le_succ _))).step fun members => ?_
  refine (expect_keyword _).free.step fun _ => (expect_keyword _).free.step fun _ => ?_
  refine lastLine_agrees.step fun last => (make_agrees _ _ _).step fun decl => ?_
  exact expectEnd_agrees.step fun _ => .pure _

theorem classDecl_agrees (bounds : Bounds deep bound fuel fuel') :
    Agrees deep 1 bound (classDecl fuel) (classDecl fuel') :=
  @Agrees.turns Node deep 1 bound classDecl classDecl rfl rfl
    (fun _ bounds later => classTurn_agrees later bounds) fuel fuel' bounds

end Declaration

namespace ModuleText

variable {deep : Prop} {bound fuel fuel' : Nat}

theorem item_agrees (bounds : Bounds deep bound fuel fuel') :
    Agrees deep 1 bound (item fuel) (item fuel') := by
  refine peekKind_agrees.step fun kind => ?_
  dsimp only
  split
  · refine advance_agrees.step fun _ => (expectWord_agrees _).past fun _ => ?_
    exact expectEnd_agrees.step fun _ => .pure _
  · split
    · exact (Declaration.classDecl_agrees bounds).past fun decl => .pure _
    · split
      · refine (Declaration.members_agrees bounds).past fun decls => ?_
        split
        · exact .pure _
        · exact .pure _
      · refine (Statement.read_agrees bounds).past fun loose => ?_
        exact expectEnd_agrees.step fun _ => .pure _

def itemTurn (fuel : Nat) (next : Reader TopLevel) : Reader TopLevel := do
  skipSeparators
  if ← at? .endOfText then return {}
  let first ← recovering (item (fuel + 1)) {}
  return first.append (← next)

theorem items_succ (fuel : Nat) : items (fuel + 1) = itemTurn fuel (items fuel) := rfl

theorem itemTurn_agrees (bounds : Bounds deep (bound + 1) (fuel + 1) (fuel' + 1))
    {next next' : Reader TopLevel} (later : Agrees deep 0 bound next next') :
    Agrees deep 0 (bound + 1) (itemTurn fuel next) (itemTurn fuel' next') := by
  refine .separated fun state sound few inLine => ?_
  have isAt : at? .endOfText state = .ok (state.current.kind == .endOfText) state := rfl
  refine .looks sound isAt ?_
  split
  · exact Agrees.pure _ state sound few
  · rename_i isEnd
    have goesOn : state.current.kind ≠ .endOfText := fun same => isEnd (beq_iff_eq.2 same)
    have found := AgreesAt.recovering sound goesOn inLine (item_agrees bounds state sound few) {}
    refine (found.ahead fun first => ?_).cheaper (Nat.zero_le 1)
    exact (later.restrict (Nat.le_of_lt_succ few)).step fun rest => .pure _

theorem items_agrees (bounds : Bounds deep bound fuel fuel') :
    Agrees deep 0 bound (items fuel) (items fuel') :=
  @Agrees.turns TopLevel deep 0 bound items items rfl rfl
    (fun _ bounds later => itemTurn_agrees bounds later) fuel fuel' bounds

theorem constructor?_agrees (name : String) (body : List Node) :
    Passing deep 0 bound (constructor? name body) := by
  unfold constructor?
  split
  · exact .pure _
  · exact (make_agrees _ _ _).step fun block => (make_agrees _ _ _).map _

theorem shape_agrees (name : String) (top : TopLevel) : Passing deep 0 bound (shape name top) := by
  unfold shape
  split
  · exact .pure _
  · refine (constructor?_agrees _ _).step fun constructor => lastLine_agrees.step fun last => ?_
    exact make_agrees _ _ _

/-- What reads a text as a module, apart from the comments; no turn of a loop and no way into a nested
construct goes beyond the bound. -/
def reader (bound : Nat) (name : String) : Reader (TopLevel × Node) := do
  let items ← items bound
  return (items, ← shape name items)

theorem reader_agrees (name : String) (bounds : Bounds deep bound fuel fuel') :
    Agrees deep 0 bound (reader fuel name) (reader fuel' name) :=
  (items_agrees bounds).step fun top => (shape_agrees name top).step fun _ => .pure _

def CountsClasses (top : TopLevel) : Prop :=
  top.classes ≤ (top.members.filter (·.shape.isType)).length

theorem item_counts (fuel : Nat) : Yields (item fuel) CountsClasses := by
  refine .anyThen fun kind => ?_
  dsimp only
  split
  · exact .anyThen fun _ => .anyThen fun _ => .anyThen fun _ => .pure fun _ _ => Nat.zero_le _
  · split
    · refine (Declaration.classDecl_yields fuel).take fun decl isType => .pure fun _ _ => ?_
      have kept : [decl].filter (·.shape.isType) = [decl] := by
        rw [List.filter_eq_self]
        intro node listed
        rw [List.mem_singleton.1 listed, Shape.isType_eq, isType.1.1]
        rfl
      rw [CountsClasses, kept]
      exact Nat.le_refl 1
    · split
      · refine .anyThen fun decls => ?_
        split
        · exact .pure fun _ _ => Nat.zero_le _
        · exact .pure fun _ _ => Nat.zero_le _
      · exact .anyThen fun _ => .anyThen fun _ => .pure fun _ _ => Nat.zero_le _

theorem items_counts (fuel : Nat) : Yields (items fuel) CountsClasses := by
  induction fuel with
  | zero => exact .stop
  | succ fuel ih =>
    refine .anyThen fun _ => .anyThen fun isEnd => ?_
    split
    · exact .pure fun _ _ => Nat.zero_le _
    · refine (Leads.recovering (item_counts (fuel + 1)) (Nat.zero_le _)).take fun first left => ?_
      refine ih.take fun rest right => .pure fun _ _ => ?_
      rw [CountsClasses, TopLevel.append, List.filter_append, List.length_append]
      exact Nat.add_le_add left right

theorem shape_isType (name : String) {top : TopLevel} (counts : CountsClasses top) :
    Yields (shape name top) fun root => root.shape.isType := by
  unfold shape
  split
  · rename_i decl isOne isMember _
    rw [CountsClasses, isOne, isMember] at counts
    refine .pure fun _ _ => ?_
    cases isType : decl.shape.isType with
    | true => exact isType
    | false =>
      rw [List.filter_cons, isType] at counts
      exact absurd counts (Nat.not_succ_le_zero 0)
  · refine .anyThen fun constructor => .anyThen fun last => ?_
    exact .make fun _ _ _ => rfl

end ModuleText

theorem Reader.State.start_tokens (lexed : Lexed) : (State.start lexed).tokens = lexed.tokens := by
  unfold State.start Lexed.tokens
  cases lexed.body <;> rfl

theorem Reader.State.start_sound (text : String) {deep : Prop} : (State.start (lex text)).Sound deep := by
  constructor
  · rw [start_tokens, Lexed.tokens, List.getLast?_concat]
    intro token isLast
    rw [← Option.some.inj isLast]
    exact Lexer.kind_finish _ _
  · intro fault noted
    unfold State.start at noted
    split at noted <;> exact nomatch noted

open ModuleText in
def parseModuleWithin (bound : Nat) (text name : String) : Except (List SyntaxFault) Module :=
  let lexed := lex text
  if !lexed.faults.isEmpty then .error (lexed.faults.map .ofLexical)
  else
    match reader bound name (.start lexed) with
    | .error fault state => .error (state.noted.reverse ++ [fault])
    | .ok (items, root) state =>
      if !state.noted.isEmpty then .error state.noted.reverse
      else .ok {
        name, explicit := items.explicit, root := Attachment.attachComments root lexed.comments
        parents := ParentLinks.relink {} root, fresh := state.fresh }

theorem parseModule_eq (text name : String) :
    parseModule text name = parseModuleWithin ((lex text).tokens.length + 1) text name := rfl

theorem parseModuleWithin_eq {bound : Nat} (text name : String)
    (enough : (lex text).tokens.length ≤ bound) :
    parseModuleWithin bound text name = parseModule text name := by
  rw [parseModule_eq]
  have bounds : Bounds False (lex text).tokens.length bound ((lex text).tokens.length + 1) :=
    .inl ⟨enough, Nat.le_succ _⟩
  have few : (State.start (lex text)).left < (lex text).tokens.length := by
    rw [← State.start_tokens, State.length_tokens]
    exact Nat.lt_succ_self _
  have same := (ModuleText.reader_agrees name bounds _ (State.start_sound text) few).same
  unfold parseModuleWithin
  dsimp only
  rw [same]

theorem parseModule_shallow {text name : String} {faults : List SyntaxFault}
    (fails : parseModule text name = .error faults) :
    faults ≠ [] ∧ ∀ fault ∈ faults, fault.cause ≠ .nestedTooDeep := by
  have bounds : Bounds False (lex text).tokens.length ((lex text).tokens.length + 1)
      ((lex text).tokens.length + 1) := .inl ⟨Nat.le_succ _, Nat.le_succ _⟩
  have few : (State.start (lex text)).left < (lex text).tokens.length := by
    rw [← State.start_tokens, State.length_tokens]
    exact Nat.lt_succ_self _
  have moves := (ModuleText.reader_agrees name bounds _ (State.start_sound text) few).moves
  rw [parseModule_eq] at fails
  unfold parseModuleWithin at fails
  dsimp only at fails
  split at fails
  · rename_i faulty
    obtain rfl := Except.error.inj fails
    constructor
    · simpa using faulty
    · intro fault listed
      obtain ⟨lexical, _, rfl⟩ := List.mem_map.1 listed
      exact nofun
  · split at fails
    · rename_i fault state stops
      rw [stops] at moves
      obtain rfl := Except.error.inj fails
      refine ⟨List.append_ne_nil_of_right_ne_nil _ (List.cons_ne_nil _ _), ?_⟩
      intro other listed
      rcases List.mem_append.1 listed with noted | last
      · exact moves.1.sound.shallow other (List.mem_reverse.1 noted)
      · exact List.mem_singleton.1 last ▸ moves.2
    · rename_i items root state returns
      rw [returns] at moves
      have passes : Passes False 0 _ state := moves
      split at fails
      · rename_i noted
        obtain rfl := Except.error.inj fails
        constructor
        · simpa using noted
        · exact fun fault listed => passes.sound.shallow fault (List.mem_reverse.1 listed)
      · exact nomatch fails

theorem Attachment.exists_attachComments (root : Node) (comments : List Comment) :
    ∃ f, Node.Adds f (fun _ => []) ∧ attachComments root comments = root.mapUp f := by
  unfold attachComments
  dsimp only
  split
  · exact ⟨id, .ofMarks fun _ => ⟨rfl, rfl, rfl⟩, (Node.mapUp_of_fixed fun _ _ => rfl).symm⟩
  · refine ⟨_, .ofMarks fun node => ?_, rfl⟩
    obtain ⟨info, shape⟩ := node
    exact ⟨rfl, rfl, rfl⟩

theorem Attachment.family_attachComments (root : Node) (comments : List Comment) :
    (attachComments root comments).shape.family = root.shape.family := by
  obtain ⟨f, adds, attached⟩ := exists_attachComments root comments
  rw [attached, adds.family_mapUp]

theorem parseModule_reading {text name : String} {module : Module}
    (parsed : parseModule text name = .ok module) : ∃ top root last,
      ModuleText.reader ((lex text).tokens.length + 1) name (.start (lex text)) =
        .ok (top, root) last ∧ module.root = Attachment.attachComments root (lex text).comments ∧
      module.parents = .relink {} root := by
  rw [parseModule_eq] at parsed
  unfold parseModuleWithin at parsed
  dsimp only at parsed
  split at parsed
  · exact nomatch parsed
  split at parsed
  · exact nomatch parsed
  rename_i top root last returns
  split at parsed
  · exact nomatch parsed
  · obtain rfl := Except.ok.inj parsed
    exact ⟨top, root, last, returns, rfl, rfl⟩

theorem ModuleText.reader_isType (bound : Nat) (name : String) :
    Yields (reader bound name) fun (_, root) => root.shape.isType := by
  refine Leads.take (items_counts _) fun top counts => ?_
  exact (shape_isType name counts).take fun root isType => .pure fun _ _ => isType

theorem parseModule_isType {text name : String} {module : Module}
    (parsed : parseModule text name = .ok module) : module.root.shape.isType := by
  obtain ⟨top, root, last, returns, whole, -⟩ := parseModule_reading parsed
  have isType : root.shape.isType = true := ModuleText.reader_isType _ name _ _ _ trivial returns
  rw [Shape.isType_eq] at isType ⊢
  rwa [whole, Attachment.family_attachComments]

/-- Each turn of a loop, and each way into a nested construct, is followed by another one only where a
token was passed. -/
structure ModuleText.Advancing : Prop where
  items : Loop 0 (fun fuel (_ : Unit) => items fuel) fun fuel next _ => itemTurn fuel (next ())
  members : ∀ (within : Nat) (className : String) (first : Span),
    Loop 0 (fun fuel (_ : Unit) =>
        Declaration.classMembers (Declaration.classDecl within) className first fuel)
      fun fuel next _ =>
        Declaration.memberTurn (Declaration.classDecl within) className first fuel (next ())
  block : ∀ (within : Nat) (stops : TokenKind → Bool),
    Loop 0 (fun fuel (_ : Unit) => Statement.blockItems (Statement.read within) stops fuel)
      fun _ next _ => Statement.blockTurn (Statement.read within) stops (next ())
  inline : ∀ within : Nat,
    Loop 0 (fun fuel (_ : Unit) => Statement.inlineItems (Statement.read within) fuel)
      fun _ next _ => Statement.inlineTurn (Statement.read within) (next ())
  ifArms : ∀ (within : Nat) (stops : TokenKind → Bool),
    Loop 0 (fun fuel (arms : List (IfArm Node) × Option Node) =>
        Statement.ifArms (Statement.block (Statement.read within) within) stops
          (Expression.whole within) fuel arms.1 arms.2)
      fun _ next arms =>
        Statement.ifArmTurn (Statement.block (Statement.read within) within) stops
          (Expression.whole within) next arms
  caseArms : ∀ within : Nat,
    Loop 0 (fun fuel (_ : Unit) =>
        Statement.caseArms (Statement.block (Statement.read within) within)
          (commaList (Statement.caseTest within) within) fuel)
      fun _ next _ =>
        Statement.caseTurn (Statement.block (Statement.read within) within)
          (commaList (Statement.caseTest within) within) (next ())
  caseTests : ∀ within : Nat,
    Loop 0 (fun fuel (_ : Unit) => commaList (Statement.caseTest within) fuel)
      fun _ next _ => commaTurn (Statement.caseTest within) (next ())
  arrayBounds : ∀ within : Nat,
    Loop 0 (fun fuel (_ : Unit) => commaList (Expression.whole within) fuel)
      fun _ next _ => commaTurn (Expression.whole within) (next ())
  bareArguments : ∀ within : Nat,
    Loop 0 (fun fuel (_ : Unit) => commaList (Statement.bareArgument within) fuel)
      fun _ next _ => commaTurn (Statement.bareArgument within) (next ())
  arguments : ∀ within : Nat,
    Loop 0 (fun fuel (_ : Unit) =>
        commaList (Expression.argument (Expression.read within 0)) fuel)
      fun _ next _ => commaTurn (Expression.argument (Expression.read within 0)) (next ())
  suffixes : ∀ within : Nat,
    Loop 0 (Expression.suffixes (Expression.read within 0))
      fun fuel next before => Expression.suffixTurn (Expression.read within 0) fuel next before
  operators : ∀ within power : Nat,
    Loop 0 (Expression.operators (Expression.read within) power)
      fun _ next left => Expression.operatorTurn (Expression.read within) power next left
  typeNames : Loop 0 Expression.typeNameTail fun _ next name => Expression.typeNameTurn next name
  expressions : Loop 1 Expression.read fun fuel next power => Expression.turn fuel next power
  statements : Loop 1 (fun fuel (_ : Unit) => Statement.read fuel)
    fun fuel next _ => Statement.one (next ()) (fuel + 1)
  classes : Loop 1 (fun fuel (_ : Unit) => Declaration.classDecl fuel)
    fun fuel next _ => Declaration.classTurn fuel (next ())

theorem Reader.Loop.commaList {item : Reader α} {cost : Nat} (each : Forward cost item)
    (cheap : cost ≤ 1) :
    Loop 0 (fun fuel (_ : Unit) => Reader.commaList item fuel)
      fun _ next _ => commaTurn item (next ()) :=
  ⟨fun fuel _ => commaList_succ item fuel, fun _ _ => .of_agrees fun later =>
    commaTurn_agrees (each _) (later ()) cheap⟩

theorem ModuleText.advancing : Advancing := by
  have bounds (bound fuel : Nat) : Bounds True bound fuel fuel := .inr ⟨trivial, rfl⟩
  have statement (within bound : Nat) : Passing True 1 bound (Statement.read within) :=
    Statement.read_agrees (bounds bound within)
  have block (within bound : Nat) (stops : TokenKind → Bool) :
      Passing True 0 bound (Statement.block (Statement.read within) within stops) :=
    Statement.block_agrees (statement within bound) (bounds bound within) stops
  have expression (within bound power : Nat) : Passing True 0 bound (Expression.read within power) :=
    (Expression.read_agrees (bounds bound within) power).free
  have test (within : Nat) : Forward 0 (Statement.caseTest within) := fun bound =>
    Statement.caseTest_agrees (bounds bound within)
  constructor
  case items =>
    exact ⟨fun fuel _ => items_succ fuel, fun fuel _ => .of_agrees fun later =>
      itemTurn_agrees (bounds _ _) (later ())⟩
  case members =>
    exact fun within className first =>
      ⟨fun fuel _ => Declaration.classMembers_succ _ className first fuel,
        fun fuel _ => .of_agrees fun later => Declaration.memberTurn_agrees
          (Declaration.classDecl_agrees (bounds _ within)) className first (bounds _ _) (later ())⟩
  case block =>
    exact fun within stops => ⟨fun fuel _ => Statement.blockItems_succ _ stops fuel,
      fun _ _ => .of_agrees fun later =>
        Statement.blockTurn_agrees (statement within _) stops (later ())⟩
  case inline =>
    exact fun within => ⟨fun fuel _ => Statement.inlineItems_succ _ fuel,
      fun _ _ => .of_agrees fun later =>
        Statement.inlineTurn_agrees (statement within _) (later ())⟩
  case ifArms =>
    exact fun within stops => ⟨fun fuel arms => Statement.ifArms_succ _ stops _ fuel arms,
      fun _ arms => .of_agrees fun later =>
        Statement.ifArmTurn_agrees (block within _) (expression within _ 0) stops later arms⟩
  case caseArms =>
    exact fun within => ⟨fun fuel _ => Statement.caseArms_succ _ _ fuel,
      fun _ _ => .of_agrees fun later => Statement.caseTurn_agrees (block within _)
        (commaList_agrees (test within _) (Nat.zero_le 1) (bounds _ _)) (later ())⟩
  case caseTests => exact fun within => .commaList (test within) (Nat.zero_le 1)
  case arrayBounds =>
    exact fun within => .commaList (fun bound => expression within bound 0) (Nat.zero_le 1)
  case bareArguments =>
    exact fun within => .commaList
      (fun bound => Statement.bareArgument_agrees (bounds bound within)) (Nat.zero_le 1)
  case arguments =>
    exact fun within => .commaList
      (fun bound => Expression.argument_agrees (expression within bound 0)) (Nat.zero_le 1)
  case suffixes =>
    exact fun within => ⟨fun fuel => congrFun (Expression.suffixes_succ _ fuel),
      fun _ before => .of_agrees fun later =>
        Expression.suffixTurn_agrees (expression within _ 0) (bounds _ _) later before⟩
  case operators =>
    exact fun within power => ⟨fun fuel => congrFun (Expression.operators_succ _ power fuel),
      fun _ left => .of_agrees fun later =>
        Expression.operatorTurn_agrees (expression within _) power later left⟩
  case typeNames =>
    exact ⟨fun fuel => congrFun (Expression.typeNameTail_succ fuel), fun _ name => .of_agrees fun later =>
      Expression.typeNameTurn_agrees later name⟩
  case expressions =>
    exact ⟨fun fuel => congrFun (Expression.read_succ fuel), fun _ power => .of_agrees fun later =>
      Expression.turn_agrees (fun power => (later power).free) (bounds _ _) power⟩
  case statements =>
    exact ⟨fun fuel _ => Statement.read_succ fuel, fun _ _ => .of_agrees fun later =>
      Statement.one_agrees (later ()) (bounds _ _)⟩
  case classes =>
    exact ⟨fun fuel _ => Declaration.classDecl_succ fuel, fun _ _ => .of_agrees fun later =>
      Declaration.classTurn_agrees (later ()) (bounds _ _)⟩

/-- Every text is read to its end: no bound is ever used up, and the text is a module that is a type or
has faults. -/
theorem parseModule_ends (text name : String) :
    ModuleText.Advancing ∧
    (∀ bound, (lex text).tokens.length ≤ bound →
      parseModuleWithin bound text name = parseModule text name) ∧
    match parseModule text name with
    | .ok module => module.root.shape.isType
    | .error faults => faults ≠ [] ∧ ∀ fault ∈ faults, fault.cause ≠ .nestedTooDeep := by
  refine ⟨ModuleText.advancing, fun bound enough => parseModuleWithin_eq text name enough, ?_⟩
  cases parsed : parseModule text name with
  | ok module => exact parseModule_isType parsed
  | error faults => exact parseModule_shallow parsed

end ScriptMigration
