import ScriptMigration.Draft.Basic
import ScriptMigration.Syntax.Walk

/-! What procedures give back. A procedure has a cell for the value that it is going to give back.
Which nodes read it, write it or leave the procedure is said here; all else that statements and
expressions do is left open: an interpretation is told what a node is apart from its parts and what is
noted of it, and then has the parts do something, in any order and as often as it likes. -/
namespace ScriptMigration

/-- What is asked of a node: to give a value, or to take one as what is assigned to. -/
inductive Task (Value : Type) where
  | give
  | take (value : Value)

/-- What comes of a node after which the procedure goes on: a value, or a signal that a statement is
done, that a loop is left or that there is an error. -/
inductive Answer (Value Signal : Type) where
  | value (value : Value)
  | signal (signal : Signal)

structure Label where
  info : NodeInfo
  shape : Shape Unit
  binding : Option Binding
  descriptor : Option Descriptor
  mode : LogicalMode

def Node.label (node : Node) (notes : Notes) : Label where
  info := node.info
  shape := node.shape.mapParts fun _ _ => ()
  binding := notes.binding? node.id
  descriptor := notes.descriptor? node.id
  mode := notes.mode node.id

/-- A step in the work of a node: it ends, or has the part of a number do something and goes on with
what comes of that. -/
inductive Move (World Value Signal Control : Type) where
  | finish (answer : Answer Value Signal) (world : World)
  | visit (part : Nat) (task : Task Value) (world : World)
      (next : Answer Value Signal → World → Control)

/-- All that statements and expressions do apart from giving back a value. -/
structure Interpretation where
  /-- What statements and expressions see and change, but for the cell. -/
  World : Type
  Value : Type
  Signal : Type
  /-- How far the work of a node has come. -/
  Control : Type
  literal : Literal → Value
  /-- The signal of a statement that is done. -/
  done : Signal
  /-- Whether and where a block goes on after one of its statements. It may go on after an error. -/
  resume : Answer Value Signal → World → Option World
  resume_done : ∀ world, resume (.signal done) world = some world
  enter : Label → Task Value → World → Control
  /-- The steps that may come next. -/
  moves : Control → Move World Value Signal Control → Prop

namespace Interpretation

variable (I : Interpretation)

abbrev Answers : Type := Answer I.Value I.Signal

/-- How a node or a list of statements ends. -/
inductive Ending where
  | answers (answer : I.Answers)
  /-- The procedure is left and gives back the value. -/
  | leaves (value : Option I.Value)
  /-- All statements of a list are done. -/
  | through

inductive Outcome where
  | returned (value : Option I.Value)
  | stopped (answer : I.Answers)

/-- What is left to do: a node, the rest of the work of a node over its parts, or statements. -/
inductive Phase where
  | node (node : Node) (task : Task I.Value) (world : I.World)
  | control (parts : List Node) (control : I.Control)
  | stmts (stmts : List Node) (world : I.World)

structure Frame where
  notes : Notes
  /-- Names that are bound to this stand for the cell. -/
  own : Binding
  /-- What is given back at an exit and at the end of the body, by what is in the cell. -/
  atExit : I.Value → Option I.Value

end Interpretation

inductive Sense where
  /-- It stands for the cell. -/
  | own
  | literal (literal : Literal)
  | exit
  /-- It gives back a value. -/
  | give (value : Option Node)
  /-- It declares the cell. -/
  | declare (initial : Option Node)
  | block (stmts : List Node)
  /-- All else is for the interpretation. -/
  | other (label : Label) (parts : List Node)

namespace Interpretation

variable {I : Interpretation}

def Frame.plainSense (frame : I.Frame) (node : Node) : Sense :=
  match node.shape with
  | .literal value => .literal value
  | .exit target =>
    if target.leavesProcedure then .exit else .other (node.label frame.notes) node.children
  | .returnStmt value => .give value
  | .localVar decl =>
    if frame.own = .localVar node.id then .declare decl.init
    else .other (node.label frame.notes) node.children
  | .block stmts => .block stmts
  | _ => .other (node.label frame.notes) node.children

def Frame.sense (frame : I.Frame) (node : Node) : Sense :=
  if frame.notes.binding? node.id = some frame.own then .own else frame.plainSense node

/-- A block ends as its statements do, and is done when they are. -/
def Ending.closed : I.Ending → I.Ending
  | .through => .answers (.signal I.done)
  | ending => ending

/-- The runs of a procedure: what a phase comes to, what it makes of the world, and what it leaves in
the cell. -/
inductive Runs (frame : I.Frame) : I.Phase → I.Value → I.Ending → I.World → I.Value → Prop where
  | read {node : Node} {world : I.World} {cell : I.Value} (sense : frame.sense node = .own) :
      Runs frame (.node node .give world) cell (.answers (.value cell)) world cell
  | write {node : Node} {world : I.World} {cell value : I.Value} (sense : frame.sense node = .own) :
      Runs frame (.node node (.take value) world) cell (.answers (.signal I.done)) world value
  | literal {node : Node} {world : I.World} {cell : I.Value} {literal : Literal}
      (sense : frame.sense node = .literal literal) :
      Runs frame (.node node .give world) cell (.answers (.value (I.literal literal))) world cell
  | exit {node : Node} {world : I.World} {cell : I.Value} (sense : frame.sense node = .exit) :
      Runs frame (.node node .give world) cell (.leaves (frame.atExit cell)) world cell
  | giveNone {node : Node} {world : I.World} {cell : I.Value}
      (sense : frame.sense node = .give none) :
      Runs frame (.node node .give world) cell (.leaves none) world cell
  | give {node value : Node} {world world' : I.World} {cell cell' given : I.Value}
      (sense : frame.sense node = .give (some value))
      (evaluated : Runs frame (.node value .give world) cell (.answers (.value given)) world' cell') :
      Runs frame (.node node .give world) cell (.leaves (some given)) world' cell'
  | declareNone {node : Node} {world : I.World} {cell : I.Value}
      (sense : frame.sense node = .declare none) :
      Runs frame (.node node .give world) cell (.answers (.signal I.done)) world cell
  | declare {node initial : Node} {world world' : I.World} {cell cell' first : I.Value}
      (sense : frame.sense node = .declare (some initial))
      (evaluated : Runs frame (.node initial .give world) cell (.answers (.value first)) world' cell') :
      Runs frame (.node node .give world) cell (.answers (.signal I.done)) world' first
  | block {node : Node} {stmts : List Node} {world world' : I.World} {cell cell' : I.Value}
      {ending : I.Ending} (sense : frame.sense node = .block stmts)
      (body : Runs frame (.stmts stmts world) cell ending world' cell') :
      Runs frame (.node node .give world) cell ending.closed world' cell'
  | other {node : Node} {task : Task I.Value} {label : Label} {parts : List Node}
      {world world' : I.World} {cell cell' : I.Value} {ending : I.Ending}
      (sense : frame.sense node = .other label parts)
      (work : Runs frame (.control parts (I.enter label task world)) cell ending world' cell') :
      Runs frame (.node node task world) cell ending world' cell'
  | finish {parts : List Node} {control : I.Control} {answer : I.Answers} {world : I.World}
      {cell : I.Value} (step : I.moves control (.finish answer world)) :
      Runs frame (.control parts control) cell (.answers answer) world cell
  | visit {parts : List Node} {control : I.Control} {number : Nat} {part : Node}
      {task : Task I.Value} {next : I.Answers → I.World → I.Control} {answer : I.Answers}
      {world world' world'' : I.World} {cell cell' cell'' : I.Value} {ending : I.Ending}
      (step : I.moves control (.visit number task world next)) (isPart : parts[number]? = some part)
      (first : Runs frame (.node part task world) cell (.answers answer) world' cell')
      (rest : Runs frame (.control parts (next answer world')) cell' ending world'' cell'') :
      Runs frame (.control parts control) cell ending world'' cell''
  | visitLeft {parts : List Node} {control : I.Control} {number : Nat} {part : Node}
      {task : Task I.Value} {next : I.Answers → I.World → I.Control} {value : Option I.Value}
      {world world' : I.World} {cell cell' : I.Value}
      (step : I.moves control (.visit number task world next)) (isPart : parts[number]? = some part)
      (first : Runs frame (.node part task world) cell (.leaves value) world' cell') :
      Runs frame (.control parts control) cell (.leaves value) world' cell'
  | through {world : I.World} {cell : I.Value} : Runs frame (.stmts [] world) cell .through world cell
  | next {stmt : Node} {rest : List Node} {answer : I.Answers}
      {world world' resumed world'' : I.World} {cell cell' cell'' : I.Value} {ending : I.Ending}
      (first : Runs frame (.node stmt .give world) cell (.answers answer) world' cell')
      (goesOn : I.resume answer world' = some resumed)
      (later : Runs frame (.stmts rest resumed) cell' ending world'' cell'') :
      Runs frame (.stmts (stmt :: rest) world) cell ending world'' cell''
  | stop {stmt : Node} {rest : List Node} {answer : I.Answers} {world world' : I.World}
      {cell cell' : I.Value}
      (first : Runs frame (.node stmt .give world) cell (.answers answer) world' cell')
      (stops : I.resume answer world' = none) :
      Runs frame (.stmts (stmt :: rest) world) cell (.answers answer) world' cell'
  | left {stmt : Node} {rest : List Node} {value : Option I.Value} {world world' : I.World}
      {cell cell' : I.Value}
      (first : Runs frame (.node stmt .give world) cell (.leaves value) world' cell') :
      Runs frame (.stmts (stmt :: rest) world) cell (.leaves value) world' cell'

def Frame.outcome (frame : I.Frame) (cell : I.Value) : I.Ending → I.Outcome
  | .answers answer => .stopped answer
  | .leaves value => .returned value
  | .through => .returned (frame.atExit cell)

def Frame.Finishes (frame : I.Frame) (stmts : List Node) (cell : I.Value) (world : I.World)
    (outcome : I.Outcome) (after : I.World) : Prop :=
  ∃ ending last, Runs frame (.stmts stmts world) cell ending after last ∧
    frame.outcome last ending = outcome

section Runs

variable {frame : I.Frame} {cell last : I.Value} {world after : I.World} {ending : I.Ending}

def Frame.LeavesWith (frame : I.Frame) (node : Node) (cell : I.Value) (value : Option I.Value) :
    Prop :=
  ∀ task world ending after last, Runs frame (.node node task world) cell ending after last ↔
    task = .give ∧ ending = .leaves value ∧ after = world ∧ last = cell

/-- A node that does nothing but give a value. -/
def Frame.Yields (frame : I.Frame) (node : Node) (cell value : I.Value) : Prop :=
  ∀ world ending after last, Runs frame (.node node .give world) cell ending after last ↔
    ending = .answers (.value value) ∧ after = world ∧ last = cell

theorem yields_of_own {node : Node} (sense : frame.sense node = .own) :
    frame.Yields node cell cell := by
  intro world ending after last
  constructor
  · intro runs
    cases runs with
    | read => exact ⟨rfl, rfl, rfl⟩
    | literal other | exit other | giveNone other | give other | declareNone other | declare other
    | block other | other other => exact nomatch sense.symm.trans other
  · rintro ⟨rfl, rfl, rfl⟩
    exact .read sense

theorem yields_of_literal {node : Node} {literal : Literal}
    (sense : frame.sense node = .literal literal) :
    frame.Yields node cell (I.literal literal) := by
  intro world ending after last
  constructor
  · intro runs
    cases runs with
    | literal other =>
      obtain rfl := Sense.literal.inj (sense.symm.trans other)
      exact ⟨rfl, rfl, rfl⟩
    | read other | exit other | giveNone other | give other | declareNone other | declare other
    | block other | other other => exact nomatch sense.symm.trans other
  · rintro ⟨rfl, rfl, rfl⟩
    exact .literal sense

theorem leavesWith_of_exit {node : Node} (sense : frame.sense node = .exit) :
    frame.LeavesWith node cell (frame.atExit cell) := by
  intro task world ending after last
  constructor
  · intro runs
    cases runs with
    | exit => exact ⟨rfl, rfl, rfl, rfl⟩
    | read other | write other | literal other | giveNone other | give other | declareNone other
    | declare other | block other | other other => exact nomatch sense.symm.trans other
  · rintro ⟨rfl, rfl, rfl, rfl⟩
    exact .exit sense

theorem leavesWith_of_give {node given : Node} {value : I.Value}
    (sense : frame.sense node = .give (some given)) (yields : frame.Yields given cell value) :
    frame.LeavesWith node cell (some value) := by
  intro task world ending after last
  constructor
  · intro runs
    cases runs with
    | give other evaluated =>
      obtain rfl := Option.some.inj (Sense.give.inj (sense.symm.trans other))
      obtain ⟨same, rfl, rfl⟩ := (yields ..).1 evaluated
      obtain rfl := Answer.value.inj (Ending.answers.inj same)
      exact ⟨rfl, rfl, rfl, rfl⟩
    | read other | write other | literal other | exit other | giveNone other | declareNone other
    | declare other | block other | other other => exact nomatch sense.symm.trans other
  · rintro ⟨rfl, rfl, rfl, rfl⟩
    exact .give sense ((yields ..).2 ⟨rfl, rfl, rfl⟩)

theorem runs_append {first rest : List Node} :
    Runs frame (.stmts (first ++ rest) world) cell ending after last ↔
      (∃ middle between, Runs frame (.stmts first world) cell .through middle between ∧
        Runs frame (.stmts rest middle) between ending after last) ∨
      ending ≠ .through ∧ Runs frame (.stmts first world) cell ending after last := by
  induction first generalizing world cell with
  | nil =>
    constructor
    · exact fun runs => .inl ⟨world, cell, .through, runs⟩
    · rintro (⟨_, _, ⟨⟩, runs⟩ | ⟨differs, ⟨⟩⟩)
      · exact runs
      · exact absurd rfl differs
  | cons stmt first ih =>
    constructor
    · intro runs
      cases runs with
      | next head goesOn later =>
        rcases ih.1 later with ⟨middle, between, early, late⟩ | ⟨differs, early⟩
        · exact .inl ⟨middle, between, .next head goesOn early, late⟩
        · exact .inr ⟨differs, .next head goesOn early⟩
      | stop head stops => exact .inr ⟨nofun, .stop head stops⟩
      | left head => exact .inr ⟨nofun, .left head⟩
    · rintro (⟨middle, between, early, late⟩ | ⟨differs, early⟩)
      · cases early with
        | next head goesOn later => exact .next head goesOn (ih.2 (.inl ⟨middle, between, later, late⟩))
      · cases early with
        | next head goesOn later => exact .next head goesOn (ih.2 (.inr ⟨differs, later⟩))
        | stop head stops => exact .stop head stops
        | left head => exact .left head

theorem runs_of_leavesWith {node : Node} {rest : List Node} {value : Option I.Value}
    (leaves : frame.LeavesWith node cell value) :
    Runs frame (.stmts (node :: rest) world) cell ending after last ↔
      ending = .leaves value ∧ after = world ∧ last = cell := by
  constructor
  · intro runs
    cases runs with
    | next head => exact nomatch ((leaves ..).1 head).2.1
    | stop head => exact nomatch ((leaves ..).1 head).2.1
    | left head => exact ((leaves ..).1 head).2
  · rintro ⟨rfl, rfl, rfl⟩
    exact .left ((leaves ..).2 ⟨rfl, rfl, rfl, rfl⟩)

theorem not_through {first : List Node} {stmt : Node}
    (leaves : ∀ {world after : I.World} {cell last : I.Value} {ending : I.Ending},
      Runs frame (.node stmt .give world) cell ending after last → ∃ value, ending = .leaves value) :
    ¬ Runs frame (.stmts (first ++ [stmt]) world) cell .through after last := by
  intro runs
  rcases runs_append.1 runs with ⟨middle, between, _, late⟩ | ⟨differs, _⟩
  · cases late with
    | next head =>
      obtain ⟨value, same⟩ := leaves head
      exact nomatch same
  · exact differs rfl

theorem leaves_of_give {node : Node} {given : Option Node} (sense : frame.sense node = .give given)
    (runs : Runs frame (.node node .give world) cell ending after last) :
    ∃ value, ending = .leaves value := by
  cases runs with
  | giveNone | give => exact ⟨_, rfl⟩
  | read other | literal other | exit other | declareNone other | declare other | block other
  | other other => exact nomatch sense.symm.trans other

theorem runs_of_declare {node initial : Node} {rest : List Node} {value : I.Value}
    (sense : frame.sense node = .declare (some initial)) (yields : frame.Yields initial cell value) :
    Runs frame (.stmts (node :: rest) world) cell ending after last ↔
      Runs frame (.stmts rest world) value ending after last := by
  have declares {ending : I.Ending} {after : I.World} {last : I.Value}
      (head : Runs frame (.node node .give world) cell ending after last) :
      ending = .answers (.signal I.done) ∧ after = world ∧ last = value := by
    cases head with
    | declare other evaluated =>
      obtain rfl := Option.some.inj (Sense.declare.inj (sense.symm.trans other))
      obtain ⟨same, rfl, rfl⟩ := (yields ..).1 evaluated
      obtain rfl := Answer.value.inj (Ending.answers.inj same)
      exact ⟨rfl, rfl, rfl⟩
    | read other | literal other | exit other | giveNone other | give other | declareNone other
    | block other | other other => exact nomatch sense.symm.trans other
  constructor
  · intro runs
    cases runs with
    | next head goesOn later =>
      obtain ⟨same, rfl, rfl⟩ := declares head
      obtain rfl := Ending.answers.inj same
      obtain rfl := Option.some.inj ((I.resume_done _).symm.trans goesOn)
      exact later
    | stop head stops =>
      obtain ⟨same, rfl, rfl⟩ := declares head
      obtain rfl := Ending.answers.inj same
      exact nomatch (I.resume_done _).symm.trans stops
    | left head => exact nomatch (declares head).1
  · exact .next (.declare sense ((yields ..).2 ⟨rfl, rfl, rfl⟩)) (I.resume_done world)

theorem finishes_of_declare {node initial : Node} {rest : List Node} {value : I.Value}
    {outcome : I.Outcome} (sense : frame.sense node = .declare (some initial))
    (yields : frame.Yields initial cell value) :
    frame.Finishes (node :: rest) cell world outcome after ↔
      frame.Finishes rest value world outcome after := by
  unfold Frame.Finishes
  simp only [runs_of_declare sense yields]

end Runs

end Interpretation

end ScriptMigration
