import ScriptMigration.Number.Binary64
import ScriptMigration.Syntax.Marks
import ScriptMigration.Syntax.Operator

/-! One node of a syntax tree. `Shape α` is a declaration, a statement or an expression with parts
of type `α`, and `Shape.children` lists these parts in source order. -/
namespace ScriptMigration

inductive Literal where
  | int (value : Int64)
  | float (value : Binary64)
  | str (value : String)
  | date (text : String)
  | bool (value : Bool)
  | nothing
  | null
  | empty
deriving DecidableEq, Repr, Inhabited

def Literal.isNullLike : Literal → Bool
  | nothing | null => true
  | _ => false

/-- The bounds of an array, each the greatest index of its dimension. A dynamic array has none. -/
structure ArrayBounds (α : Type) where
  rank : Nat
  bounds : List α

namespace ArrayBounds

def dynamic {α : Type} : ArrayBounds α := ⟨1, []⟩

def isDynamic {α : Type} (array : ArrayBounds α) : Bool := array.bounds.isEmpty

end ArrayBounds

structure TypeDecl (α : Type) where
  name : String
  visibility : Visibility := .undecided
  members : List α
  marks : TypeMarks := {}

/-- A field or a local variable. -/
structure VarDecl (α : Type) where
  name : String
  visibility : Visibility := .undecided
  typeName : Option String := none
  array : Option (ArrayBounds α) := none
  init : Option α := none
  marks : DeclMarks := {}
  origin : Origin := .source

structure MethodDecl (α : Type) where
  name : String
  visibility : Visibility := .undecided
  kind : MethodKind
  params : List α := []
  returnType : Option String := none
  body : α
  marks : DeclMarks := {}

/-- A property with its accessors. -/
structure PropertyDecl (α : Type) where
  name : String
  visibility : Visibility := .undecided
  marks : DeclMarks := {}
  getter : Option α := none
  letter : Option α := none
  setter : Option α := none

/-- The accessors of a property in the order in which they are declared in its text. -/
def PropertyDecl.accessors {α : Type} (property : PropertyDecl α) : List α :=
  property.getter.toList ++ property.letter.toList ++ property.setter.toList

structure ParamDecl (α : Type) where
  name : String
  passing : ParamMode := .byRef
  marks : ParamMarks := {}
  typeName : Option String := none
  default : Option α := none

def ParamDecl.mayBeOmitted {α : Type} (param : ParamDecl α) : Bool :=
  param.marks.isOptional || param.marks.paramArray

/-- A condition and what is done when it holds. -/
structure IfArm (α : Type) where
  cond : α
  body : α

inductive CasePattern (α : Type) where
  | value (value : α)
  | range (low high : α)
  | is (op : BinaryOp) (value : α)

def CasePattern.parts {α : Type} : CasePattern α → List α
  | .value part => [part]
  | .range low high => [low, high]
  | .is _ part => [part]

structure CaseArm (α : Type) where
  tests : List (CasePattern α)
  body : α

/-- The condition of a loop, tested before or after its body. -/
structure LoopGuard (α : Type) where
  kind : LoopKind
  cond : α
  post : Bool

/-- One node over its parts. -/
inductive Shape (α : Type) where
  | type (decl : TypeDecl α)
  | field (decl : VarDecl α)
  | method (decl : MethodDecl α)
  | property (decl : PropertyDecl α)
  | param (decl : ParamDecl α)
  | block (stmts : List α)
  | localVar (decl : VarDecl α)
  | exprStmt (expr : α)
  | assign (isSet : Bool) (target value : α)
  | ifStmt (single : Bool) (arms : List (IfArm α)) (otherwise : Option α)
  | select (subject : α) (cases : List (CaseArm α)) (otherwise : Option α)
  | forRange (counter first last : α) (step : Option α) (body : α)
  | forEach (item collection body : α)
  | loop (test : Option (LoopGuard α)) (body : α)
  | withStmt (subject body : α)
  | onError (mode : ErrorPolicy)
  | exit (target : ExitTarget)
  | returnStmt (value : Option α)
  | redim (preserve : Bool) (target : α) (bounds : List α)
  | erase (target : α)
  | literal (value : Literal)
  | name (text : String)
  /-- Without an object the member belongs to the subject of the `With` around it. -/
  | member (object : Option α) (name : String)
  /-- A call, or the element of an array or a collection. -/
  | call (parens : Bool) (callee : α) (args : List α)
  | binary (op : BinaryOp) (left right : α)
  | unary (op : UnaryOp) (operand : α)
  | paren (inner : α)
  | new (typeName : String) (args : List α)
  /-- An argument that is left out. -/
  | missing
  /-- The value that a setter is given. -/
  | assignedValue
  /-- An entry of the table of localized texts. -/
  | resource (name value : String)

namespace Shape

variable {α β : Type}

def varParts (decl : VarDecl α) : List α :=
  (match decl.array with
    | some array => array.bounds
    | none => []) ++ decl.init.toList

def children : Shape α → List α
  | type decl => decl.members
  | field decl => varParts decl
  | method decl => decl.params ++ [decl.body]
  | property decl => decl.accessors
  | param decl => decl.default.toList
  | block stmts => stmts
  | localVar decl => varParts decl
  | exprStmt expr => [expr]
  | assign _ target value => [target, value]
  | ifStmt _ arms otherwise =>
    (arms.flatMap fun arm => [arm.cond, arm.body]) ++ otherwise.toList
  | select subject cases otherwise =>
    subject :: (cases.flatMap fun arm => arm.tests.flatMap CasePattern.parts ++ [arm.body])
      ++ otherwise.toList
  | forRange counter first last step body => [counter, first, last] ++ step.toList ++ [body]
  | forEach item collection body => [item, collection, body]
  | loop test body =>
    match test with
    | none => [body]
    | some test => if test.post then [body, test.cond] else [test.cond, body]
  | withStmt subject body => [subject, body]
  | onError _ => []
  | exit _ => []
  | returnStmt value => value.toList
  | redim _ target bounds => target :: bounds
  | erase target => [target]
  | literal _ => []
  | name _ => []
  | member object _ => object.toList
  | call _ callee args => callee :: args
  | binary _ left right => [left, right]
  | unary _ operand => [operand]
  | paren inner => [inner]
  | new _ args => args
  | missing => []
  | assignedValue => []
  | resource _ _ => []

def isExpression : Shape α → Bool
  | literal _ | name _ | member .. | call .. | binary .. | unary .. | paren _ | new .. | missing
  | assignedValue | resource .. => true
  | _ => false

def isType : Shape α → Bool
  | type _ => true
  | _ => false

def isMethod : Shape α → Bool
  | method _ => true
  | _ => false

def isField : Shape α → Bool
  | field _ => true
  | _ => false

def isMember : Shape α → Bool
  | type _ | field _ | method _ | property _ => true
  | _ => false

def declName? : Shape α → Option String
  | type decl => some decl.name
  | field decl => some decl.name
  | localVar decl => some decl.name
  | method decl => some decl.name
  | property decl => some decl.name
  | param decl => some decl.name
  | _ => none

def nameText? : Shape α → Option String
  | name text => some text
  | _ => none

def varDecl? : Shape α → Option (VarDecl α)
  | field decl | localVar decl => some decl
  | _ => none

end Shape

end ScriptMigration
