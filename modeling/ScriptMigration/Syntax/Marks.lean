/-! What declarations and statements are marked with: who may use a member, why it is declared, and
of what kind it is. -/
namespace ScriptMigration

/-- Who may use a member. It is undecided where the source has no modifier. -/
inductive Visibility where
  | undecided | everyone | owner
deriving DecidableEq, Repr, Inhabited

namespace Visibility

def isDecided (visibility : Visibility) : Bool := visibility != undecided

def text : Visibility → String
  | undecided => "unspecified"
  | everyone => "public"
  | owner => "private"

end Visibility

/-- Marks on a type. -/
structure TypeMarks where
  /-- Made for a module that is not one class. -/
  implicit : Bool := false
  /-- No state in it or in what it depends on. -/
  static : Bool := false
  needsOuter : Bool := false
  needsForm : Bool := false
  needsMissing : Bool := false
deriving DecidableEq, Repr, Inhabited

/-- Marks on a field, a local variable or a procedure. -/
structure DeclMarks where
  const : Bool := false
  /-- Made on first use. -/
  asNew : Bool := false
  default : Bool := false
  /-- Made public because a nested type uses it. -/
  promoted : Bool := false
  /-- Not written in the script. -/
  synthesized : Bool := false
  /-- A `Dim` at the top level of a module. -/
  moduleDim : Bool := false
deriving DecidableEq, Repr, Inhabited

/-- Marks on a parameter. -/
structure ParamMarks where
  isOptional : Bool := false
  paramArray : Bool := false
  array : Bool := false
deriving DecidableEq, Repr, Inhabited

/-- Why a variable is declared. -/
inductive Origin where
  | source
  /-- By its first assignment. -/
  | implicit
  /-- Refers from a nested type to the type around it. -/
  | outerRef
  | formField
  | missingValue
  | returnValue
  /-- A copy of the value given to a setter. -/
  | valueCopy
deriving DecidableEq, Repr, Inhabited

inductive MethodKind where
  | sub | function | propertyGet | propertyLet | propertySet | constructor | destructor
deriving DecidableEq, Repr, Inhabited

namespace MethodKind

/-- Whether the body may assign to the name of the procedure. -/
def returnsValue : MethodKind → Bool
  | function | propertyGet => true
  | _ => false

def isSetter : MethodKind → Bool
  | propertyLet | propertySet => true
  | _ => false

def isAccessor : MethodKind → Bool
  | propertyGet | propertyLet | propertySet => true
  | _ => false

/-- Whether the procedure is run when an object comes or goes and cannot be called by name. -/
def isLifecycle : MethodKind → Bool
  | constructor | destructor => true
  | _ => false

end MethodKind

inductive ParamMode where
  | byRef | byVal
deriving DecidableEq, Repr, Inhabited

inductive LoopKind where
  | whileTrue | untilTrue
deriving DecidableEq, Repr, Inhabited

inductive ErrorPolicy where
  | resumeNext | goToZero
deriving DecidableEq, Repr, Inhabited

inductive ExitTarget where
  | sub | function | property | forLoop | doLoop
deriving DecidableEq, Repr, Inhabited

def ExitTarget.leavesProcedure : ExitTarget → Bool
  | sub | function | property => true
  | _ => false

end ScriptMigration
