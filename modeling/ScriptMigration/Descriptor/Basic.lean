import ScriptMigration.Descriptor.External
import ScriptMigration.Descriptor.Primitive
import ScriptMigration.Syntax.Node

/-! What is known of the type of a node. A descriptor is a type, the type of another declaration
that is not known yet, or one of three values that are no types of their own. -/
namespace ScriptMigration

/-- A script of a batch, by its number. -/
structure ScriptId where
  index : Nat
deriving DecidableEq, Repr, Hashable, Inhabited

def ScriptId.render (script : ScriptId) : String := s!"script_{script.index}"

/-- A declaration in a script of the batch. -/
structure DeclRef where
  script : ScriptId
  node : NodeId
deriving DecidableEq, Repr, Hashable, Inhabited

def DeclRef.render (decl : DeclRef) : String := decl.script.render ++ decl.node.render

/-- The type of one element. -/
inductive BaseType where
  | primitive (kind : Primitive)
  | external (type : ExternalType)
  /-- A type that a script declares, under the name it has there. -/
  | script (decl : DeclRef) (name : String)
deriving Repr

namespace BaseType

def same : BaseType → BaseType → Bool
  | primitive left, primitive right => left == right
  | external left, external right => left == right
  | script left _, script right _ => left == right
  | _, _ => false

instance : BEq BaseType := ⟨same⟩

def isValueType : BaseType → Bool
  | primitive kind => kind.isValueType
  | external type => type.isValueType
  | script .. => false

def primitive? : BaseType → Option Primitive
  | primitive kind => some kind
  | _ => none

def render : BaseType → String
  | primitive kind => kind.name
  | external type => type.fullName
  | script _ name => name

end BaseType

/-- A type: that of its elements, the number of dimensions of the array, and whether a value type
may be null. -/
structure DataType where
  base : BaseType
  rank : Nat := 0
  nullable : Bool := false
deriving Repr

namespace DataType

instance : BEq DataType :=
  ⟨fun left right =>
    left.base == right.base && left.rank == right.rank && left.nullable == right.nullable⟩

def ofPrimitive (kind : Primitive) : DataType := { base := .primitive kind }

def isValueType (type : DataType) : Bool := type.rank == 0 && type.base.isValueType

def isObject (type : DataType) : Bool := type.rank == 0 && type.base == .primitive .object

def primitive? (type : DataType) : Option Primitive :=
  if type.rank == 0 then type.base.primitive? else none

def withRank (type : DataType) (rank : Nat) : DataType :=
  { base := type.base, rank, nullable := type.nullable && rank == 0 }

def render (type : DataType) : String :=
  type.base.render ++ (if type.nullable then "?" else "")
    ++ String.join (List.replicate type.rank "[]")

end DataType

inductive Descriptor where
  | type (desc : DataType)
  /-- The type of another declaration. -/
  | deferred (decl : DeclRef)
  /-- Null, which takes the type of what it meets. -/
  | null
  /-- The form that the script belongs to. -/
  | form
  /-- An argument that is left out. -/
  | missing
deriving Repr

namespace Descriptor

instance : BEq Descriptor :=
  ⟨fun left right =>
    match left, right with
    | .type left, .type right => left == right
    | .deferred left, .deferred right => left == right
    | .null, .null => true
    | .form, .form => true
    | .missing, .missing => true
    | _, _ => false⟩

def ofPrimitive (kind : Primitive) : Descriptor := .type (.ofPrimitive kind)

def object : Descriptor := ofPrimitive .object

def ofExternal (type : ExternalType) : Descriptor := .type { base := .external type }

def ofScript (decl : DeclRef) (name : String) : Descriptor := .type { base := .script decl name }

def type? : Descriptor → Option DataType
  | .type desc => some desc
  | _ => none

def primitive? (descriptor : Descriptor) : Option Primitive :=
  descriptor.type?.bind DataType.primitive?

def isBool (descriptor : Descriptor) : Bool := descriptor.primitive? == some .bool

def isObject (descriptor : Descriptor) : Bool := descriptor.type?.any DataType.isObject

def isDeferred : Descriptor → Bool
  | .deferred _ => true
  | _ => false

/-- The type of an element of an array; `object` for what is no array. -/
def element : Descriptor → Descriptor
  | .type desc => if 0 < desc.rank then .type (desc.withRank (desc.rank - 1)) else object
  | _ => object

def render : Descriptor → String
  | .type desc => desc.render
  | .deferred decl => s!"deferred({decl.render})"
  | .null => "null"
  | .form => "form"
  | .missing => "missing"

end Descriptor

end ScriptMigration
