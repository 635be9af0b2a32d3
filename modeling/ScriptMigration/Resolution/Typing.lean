import ScriptMigration.Cache.Recent
import ScriptMigration.Resolution.Lookup
import ScriptMigration.Reshape.Creation

/-! The types of expressions, given what is known of their parts. In the last sweep what is still
unknown is `object`. -/
namespace ScriptMigration

/-- The members of external types that were looked up lately. -/
abbrev MemberMemo := RecentCache (Fingerprint × FoldedName) (Option SymbolMember)

/-- What is found out about an expression. What is not named stays as it was. -/
structure Judgement where
  descriptor : Option Descriptor := none
  binding : Option Binding := none
  mode : Option LogicalMode := none
  /-- Whether the name is to be declared as a local variable. -/
  declares : Bool := false
  warnings : List String := []

namespace Judgement

def ofDescriptor (descriptor : Descriptor) : Judgement := { descriptor := some descriptor }

def ofPrimitive (kind : Primitive) : Judgement := ofDescriptor (.ofPrimitive kind)

def bound (binding : Binding) (descriptor : Option Descriptor) : Judgement :=
  { descriptor, binding := some binding }

def late : Judgement := bound .late (some .object)

end Judgement

def Literal.descriptor : Literal → Descriptor
  | int value =>
    .ofPrimitive (if -2147483648 ≤ value && value ≤ 2147483647 then .int32 else .int64)
  | float _ => .ofPrimitive .double
  | str _ => .ofPrimitive .string
  | date _ => .ofPrimitive .dateTime
  | bool _ => .ofPrimitive .bool
  | nothing | null => .null
  | empty => .object

namespace Typing

def known (final : Bool) (descriptor : Option Descriptor) : Option Descriptor :=
  if final then some (descriptor.getD .object) else descriptor

def arithmetic (op : BinaryOp) (left right : Descriptor) : Descriptor :=
  match left.primitive?, right.primitive? with
  | some x, some y =>
    if x.isNumeric && y.isNumeric then left.merge .empty right
    else if x == .string && y == .string && op == .add then .ofPrimitive .string
    else if x == .dateTime && y.isNumeric && op != .mul then .ofPrimitive .dateTime
    else .object
  | _, _ => .object

def widestInteger? : List Descriptor → Option Primitive
  | [] => none
  | [operand] => operand.primitive?.filter (·.isInteger)
  | operand :: rest => do
    let kind ← operand.primitive?.filter (·.isInteger)
    let other ← widestInteger? rest
    if other.numericWidth ≤ kind.numericWidth then some kind else some other

/-- A logical operator works on truth values when all its operands are such, and on bits
otherwise. -/
def logical (final : Bool) (operands : List (Option Descriptor)) : Judgement :=
  if !final && operands.any Option.isNone then {}
  else
    let operands := operands.map (·.getD .object)
    if operands.all Descriptor.isBool then
      { descriptor := some (.ofPrimitive .bool), mode := some .boolean }
    else
      { descriptor := some (.ofPrimitive ((widestInteger? operands).getD .int32))
        mode := some .bitwise }

def binary (final : Bool) (op : BinaryOp) (left right : Option Descriptor) : Judgement :=
  if op.isLogical then logical final [left, right]
  else if op.isComparison then .ofPrimitive .bool
  else
    match op with
    | .concat => .ofPrimitive .string
    | .div | .pow => .ofPrimitive .double
    | .intDiv | .mod =>
      let isWide (side : Option Descriptor) := side.bind Descriptor.primitive? == some .int64
      .ofPrimitive (if isWide left || isWide right then .int64 else .int32)
    | _ =>
      match known final left, known final right with
      | some left, some right => .ofDescriptor (arithmetic op left right)
      | _, _ => {}

def unary (final : Bool) (op : UnaryOp) (operand : Option Descriptor) : Judgement :=
  match op with
  | .not => logical final [operand]
  | .neg | .plus => { descriptor := known final operand }

/-- Whether a name at a place may declare a variable: it is assigned to, or is made an array. -/
def mayDeclare (place : Place) : Bool :=
  place.isAssignTarget || match place.parent?.map Node.shape with
    | some (.redim _ target _) => target.id == place.node.id
    | _ => false

def expectedText (arity : Arity) : String :=
  match arity.most with
  | none => s!"at least {arity.least}"
  | some most => if most == arity.least then toString most else s!"{arity.least} to {most}"

def paramArity (params : List Node) : Arity :=
  let decls := params.filterMap Node.paramDecl?
  let least := (decls.filter (!·.mayBeOmitted)).length
  if decls.any (·.marks.paramArray) then .atLeast least else .range least params.length

end Typing

namespace Surroundings

open Typing

variable (around : Surroundings) (final : Bool)

def nameTyped (bodies : Std.HashMap NodeId LocalScope) (place : Place) (name : String) :
    Judgement :=
  match around.find? bodies place name with
  | some binding => .bound binding (known final (around.bindingDescriptor? place binding))
  | none =>
    if !around.explicit && mayDeclare place && place.method?.isSome then { declares := true }
    else if final then
      { Judgement.bound .unresolved (some .object) with
        warnings := [s!"{around.label}: '{name}' is not declared"] }
    else {}

def memberTyped (cache : MemberMemo) (target : Option Descriptor) (name : String) :
    Judgement × MemberMemo :=
  match target with
  | none => (if final then .late else {}, cache)
  | some (.type { base := .external type, rank := 0, .. }) =>
    let (found, _, cache) := cache.getOrInsert (type.print, .of name) fun _ =>
      around.symbols.member? type.print name
    match found with
    | some member => (.bound (.external member.print) (some member.result), cache)
    | none => (.late, cache)
  | some (.type { base := .script type _, rank := 0, .. }) =>
    match around.memberInScript? type name with
    | some decl =>
      (.bound (around.bindMember decl) (known final (around.declDescriptor? decl)), cache)
    | none => (.late, cache)
  | some .form =>
    if around.form.any (·.find? name |>.isSome) || (around.symbols.formMember? name).isSome then
      (.bound (.formMember name) (some (around.formMemberDescriptor name)), cache)
    else (.late, cache)
  | some _ => (.late, cache)

/-- The type of what arguments select in a value: an element of an array, or what the default
member of an external type gives. -/
def indexed (target : Descriptor) : Descriptor :=
  match target with
  | .type desc =>
    if 0 < desc.rank then target.element
    else
      match desc.base with
      | .external type => ((around.symbols.defaultMember? type.print).map (·.result)).getD .object
      | _ => .object
  | _ => .object

def countWarning (name : String) (count : Nat) (arity : Arity) : String :=
  s!"{around.label}: '{name}' called with {count} argument(s), expects {expectedText arity}"

def countWarnings (name : String) (count : Nat) (arity : Arity) : List String :=
  if final && !arity.accepts count then [around.countWarning name count arity] else []

def functionCallTyped (function : SymbolFunction) (args : List Node) : Judgement :=
  let result :=
    match Creation.created? around.symbols function args with
    | some type => .ofExternal type
    | none => function.result
  { descriptor := some result
    warnings := around.countWarnings final function.name args.length function.arity }

def callTyped (notes : Notes) (callee : Node) (args : List Node) : Judgement :=
  let target := around.followed? notes callee.id
  let applied :=
    if args.isEmpty then known final target
    else known final (target.map around.indexed)
  match notes.binding? callee.id with
  | some (.function print) =>
    match around.symbols.functions[print]? with
    | some function => around.functionCallTyped final function args
    | none => .ofDescriptor .object
  | some (.member decl) | some (.outer decl) | some (.dependency decl) =>
    match around.calledParams? decl with
    | some params =>
      let name := (callee.nameText?.or ((around.node? decl).bind Node.declName?)).getD ""
      { descriptor := known final target
        warnings := around.countWarnings final name args.length (paramArity params) }
    | none => { descriptor := applied }
  | some (.external print) =>
    if around.symbols.members[print]?.any (·.kind == .method) then
      { descriptor := known final target }
    else { descriptor := applied }
  | _ => { descriptor := applied }

def typed (notes : Notes) (bodies : Std.HashMap NodeId LocalScope) (cache : MemberMemo)
    (place : Place) : Judgement × MemberMemo :=
  let followed (node : Node) := around.followed? notes node.id
  match place.node.shape with
  | .literal value => (.ofDescriptor value.descriptor, cache)
  | .missing => (.ofDescriptor .missing, cache)
  | .resource .. => (.ofPrimitive .string, cache)
  | .assignedValue =>
    let isProperty (node : Node) : Bool :=
      match node.shape with
      | .property _ => true
      | _ => false
    match place.around.find? isProperty with
    | some property => (.ofDescriptor (.deferred ⟨around.script, property.id⟩), cache)
    | none => (.ofDescriptor .object, cache)
  | .paren inner => ({ descriptor := known final (notes.descriptor? inner.id) }, cache)
  | .new typeName _ => (.ofDescriptor (around.typeNamed (place.types.map Node.id) typeName), cache)
  | .name text => (around.nameTyped final bodies place text, cache)
  | .member object name =>
    match object.or place.withSubject? with
    | none => (.late, cache)
    | some object => around.memberTyped final cache (followed object) name
  | .call _ callee args => (around.callTyped final notes callee args, cache)
  | .binary op left right => (binary final op (followed left) (followed right), cache)
  | .unary op operand => (unary final op (followed operand), cache)
  | _ => ({}, cache)

end Surroundings

end ScriptMigration
