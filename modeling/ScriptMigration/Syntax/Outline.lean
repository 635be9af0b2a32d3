import ScriptMigration.Syntax.Walk
import Std.Data.HashMap

/-! Outlines of trees: nested records that show every part of a tree to a reader. Nodes are shown by
their number in the tree, which counts each node before its parts, from zero. -/
namespace ScriptMigration

/-- A piece of an outline. -/
inductive Outline where
  | text (value : String)
  | number (value : Nat)
  | flag (value : Bool)
  | absent
  | list (items : List Outline)
  | record (fields : List (String × Outline))
  /-- What stands here could not be computed, and so nothing is shown at all. -/
  | overflow

namespace Outline

def optional {α : Type} (key : String) (shown : α → Outline) : Option α → List (String × Outline)
  | some value => [(key, shown value)]
  | none => []

def marks (items : List (Bool × String)) : Outline :=
  .list ((items.filter (·.1)).map fun item => .text item.2)

end Outline

def TypeMarks.outline (marks : TypeMarks) : Outline :=
  .marks [(marks.implicit, "IMPLICIT"), (marks.static, "STATIC"),
    (marks.needsOuter, "NEEDS_OUTER"), (marks.needsForm, "NEEDS_FORM"),
    (marks.needsMissing, "NEEDS_MISSING")]

def DeclMarks.outline (marks : DeclMarks) : Outline :=
  .marks [(marks.const, "CONST"), (marks.asNew, "AS_NEW"), (marks.default, "DEFAULT"),
    (marks.promoted, "PROMOTED"), (marks.synthesized, "SYNTHESIZED"),
    (marks.moduleDim, "MODULE_DIM")]

def ParamMarks.outline (marks : ParamMarks) : Outline :=
  .marks [(marks.isOptional, "OPTIONAL"), (marks.paramArray, "PARAM_ARRAY"),
    (marks.array, "ARRAY")]

def Origin.name : Origin → String
  | source => "Source"
  | implicit => "Implicit"
  | outerRef => "OuterRef"
  | formField => "FormField"
  | missingValue => "MissingValue"
  | returnValue => "ReturnValue"
  | valueCopy => "ValueCopy"

def MethodKind.name : MethodKind → String
  | sub => "Sub"
  | function => "Function"
  | propertyGet => "PropertyGet"
  | propertyLet => "PropertyLet"
  | propertySet => "PropertySet"
  | constructor => "Constructor"
  | destructor => "Destructor"

def ParamMode.name : ParamMode → String
  | byRef => "ByRef"
  | byVal => "ByVal"

def LoopKind.name : LoopKind → String
  | whileTrue => "While"
  | untilTrue => "Until"

def ErrorPolicy.name : ErrorPolicy → String
  | resumeNext => "ResumeNext"
  | goToZero => "GoToZero"

def ExitTarget.name : ExitTarget → String
  | sub => "Sub"
  | function => "Function"
  | property => "Property"
  | forLoop => "For"
  | doLoop => "Do"

def LogicalMode.name : LogicalMode → String
  | undecided => "Undecided"
  | boolean => "Boolean"
  | bitwise => "Bitwise"

def UnaryOp.name : UnaryOp → String
  | neg => "Neg"
  | plus => "Plus"
  | not => "Not"

private def hexText (word : UInt64) : String :=
  let digits := Nat.toDigits 16 word.toNat
  String.ofList (List.replicate (16 - digits.length) '0' ++ digits)

def Literal.outline : Literal → Outline
  | int value => .record [("int", .text (toString value.toInt))]
  | float value => .record [("float", .text (hexText value.word))]
  | str value => .record [("str", .text value)]
  | date text => .record [("date", .text text)]
  | bool value => .record [("bool", .flag value)]
  | nothing => .text "Nothing"
  | null => .text "Null"
  | empty => .text "Empty"

def CasePattern.outline : CasePattern Outline → Outline
  | .value part => .record [("value", part)]
  | .range low high => .record [("low", low), ("high", high)]
  | .is op part => .record [("is", .text op.text), ("value", part)]

def Node.arrayLengths? (node : Node) : Except Overflow (Option (List Int64)) :=
  match node.varDecl?.bind (·.array) with
  | some array => array.fixedLengths?
  | none => .ok none

namespace Shape

open Outline (optional)

private def textOf (value : String) : Outline := .text value

def varOutline (lengths : Except Overflow (Option (List Int64))) (decl : VarDecl Outline) :
    List (String × Outline) :=
  [("name", .text decl.name), ("vis", .text decl.visibility.text),
    ("flags", decl.marks.outline), ("origin", .text decl.origin.name)]
  ++ optional "as" textOf decl.typeName
  ++ optional "shape" (fun array => .record [("rank", .number array.rank),
      ("dynamic", .flag array.isDynamic), ("bounds", .list array.bounds),
      ("lengths", match lengths with
        | .ok (some lengths) => .list (lengths.map fun length => .text (toString length.toInt))
        | .ok none => .absent
        | .error _ => .overflow)]) decl.array
  ++ optional "init" id decl.init

def outline (mode : LogicalMode) (lengths : Except Overflow (Option (List Int64))) :
    Shape Outline → String × List (String × Outline)
  | .type decl =>
    ("Type", [("name", .text decl.name), ("vis", .text decl.visibility.text),
      ("flags", decl.marks.outline), ("members", .list decl.members)])
  | .field decl => ("Field", varOutline lengths decl)
  | .localVar decl => ("Local", varOutline lengths decl)
  | .method decl =>
    ("Method", [("name", .text decl.name), ("vis", .text decl.visibility.text),
      ("kind", .text decl.kind.name), ("flags", decl.marks.outline),
      ("params", .list decl.params), ("body", decl.body)]
      ++ optional "as" textOf decl.returnType)
  | .property decl =>
    ("Property", [("name", .text decl.name), ("vis", .text decl.visibility.text),
      ("flags", decl.marks.outline)] ++ optional "get" id decl.getter
      ++ optional "let" id decl.letter ++ optional "set" id decl.setter)
  | .param decl =>
    ("Param", [("name", .text decl.name), ("passing", .text decl.passing.name),
      ("flags", decl.marks.outline)] ++ optional "as" textOf decl.typeName
      ++ optional "default" id decl.default)
  | .block stmts => ("Block", [("stmts", .list stmts)])
  | .exprStmt expr => ("ExprStmt", [("expr", expr)])
  | .assign isSet target value =>
    ("Assign", [("set", .flag isSet), ("target", target), ("value", value)])
  | .ifStmt single arms otherwise =>
    ("If", [("single", .flag single), ("arms", .list (arms.map fun arm =>
      .record [("cond", arm.cond), ("body", arm.body)]))] ++ optional "else" id otherwise)
  | .select subject cases otherwise =>
    ("Select", [("subject", subject), ("cases", .list (cases.map fun arm =>
      .record [("tests", .list (arm.tests.map CasePattern.outline)), ("body", arm.body)]))]
      ++ optional "else" id otherwise)
  | .forRange counter first last step body =>
    ("For", [("var", counter), ("from", first), ("to", last), ("body", body)]
      ++ optional "step" id step)
  | .forEach item collection body =>
    ("ForEach", [("var", item), ("in", collection), ("body", body)])
  | .loop test body =>
    ("DoLoop", optional "test" (fun test => .record [("kind", .text test.kind.name),
      ("post", .flag test.post), ("cond", test.cond)]) test ++ [("body", body)])
  | .withStmt subject body => ("With", [("subject", subject), ("body", body)])
  | .onError mode => ("OnError", [("mode", .text mode.name)])
  | .exit target => ("Exit", [("what", .text target.name)])
  | .returnStmt value => ("Return", optional "value" id value)
  | .redim preserve target bounds =>
    ("ReDim", [("preserve", .flag preserve), ("target", target), ("bounds", .list bounds)])
  | .erase target => ("Erase", [("target", target)])
  | .literal value => ("Literal", [("lit", value.outline)])
  | .name text => ("Name", [("name", .text text)])
  | .member object text => ("Member", [("name", .text text)] ++ optional "object" id object)
  | .call parens callee args =>
    ("Call", [("parens", .flag parens), ("callee", callee), ("args", .list args)])
  | .binary op left right =>
    ("Binary", [("op", .text op.text), ("mode", .text mode.name), ("left", left),
      ("right", right)])
  | .unary op operand =>
    ("Unary", [("op", .text op.name), ("mode", .text mode.name), ("operand", operand)])
  | .paren inner => ("Paren", [("inner", inner)])
  | .new typeName args => ("New", [("of", .text typeName), ("args", .list args)])
  | .missing => ("Missing", [])
  | .assignedValue => ("AssignedValue", [])
  | .resource key text => ("ResourceRef", [("name", .text key), ("value", .text text)])

end Shape

abbrev Numbering := Std.HashMap NodeId Nat

def Node.numbering (root : Node) : Numbering :=
  root.descendants.zipIdx.foldl (fun numbers (node, number) => numbers.insert node.id number) {}

structure OutlineStyle where
  numbers : Numbering
  type : NodeId → Option String := fun _ => none
  binding : NodeId → Option String := fun _ => none
  mode : NodeId → LogicalMode := fun _ => .undecided

open Outline (optional) in
def Node.outlineIn (style : OutlineStyle) (node : Node) : Outline :=
  let parts := node.shape.mapParts fun part _ => part.outlineIn style
  let (kind, fields) := parts.outline (style.mode node.id) node.arrayLengths?
  .record ([("k", .text kind), ("n", .number (style.numbers.getD node.id 0)),
      ("line", .number node.line)]
    ++ (if node.lastLine == node.line then [] else [("last", .number node.lastLine)])
    ++ (if node.info.comments.isEmpty then []
      else [("comments", .list (node.info.comments.map fun comment =>
        .list [.number comment.line, .text comment.text]))])
    ++ optional "type" .text (style.type node.id) ++ optional "bind" .text (style.binding node.id)
    ++ fields)
termination_by node
decreasing_by exact Node.sizeOf_lt_of_mem_children (by assumption)

def Node.outline (root : Node) : Outline := root.outlineIn { numbers := root.numbering }

end ScriptMigration
