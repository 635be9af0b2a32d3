import ScriptMigration.Text.Name

/-! The built-in types of the target. `object` holds every value and stands where nothing more
precise is known. -/
namespace ScriptMigration

inductive Primitive where
  | void | bool | byte | int16 | int32 | int64 | single | double | decimal | string | dateTime
  | object
deriving DecidableEq, Repr, Hashable, Inhabited

namespace Primitive

def all : List Primitive :=
  [void, bool, byte, int16, int32, int64, single, double, decimal, string, dateTime, object]

def name : Primitive → String
  | void => "void"
  | bool => "bool"
  | byte => "byte"
  | int16 => "short"
  | int32 => "int"
  | int64 => "long"
  | single => "float"
  | double => "double"
  | decimal => "decimal"
  | string => "string"
  | dateTime => "DateTime"
  | object => "object"

def ofName? (text : String) : Option Primitive := all.find? (·.name == text)

def namespace? : Primitive → Option String
  | dateTime => some "System"
  | _ => none

def ofDeclaredName? (text : String) : Option Primitive :=
  match foldCase text with
  | "boolean" => some bool
  | "byte" => some byte
  | "integer" => some int16
  | "long" => some int32
  | "single" => some single
  | "double" => some double
  | "currency" | "decimal" => some decimal
  | "string" => some string
  | "date" => some dateTime
  | "variant" | "object" => some object
  | _ => none

def isValueType : Primitive → Bool
  | string | object | void => false
  | _ => true

def isInteger : Primitive → Bool
  | byte | int16 | int32 | int64 => true
  | _ => false

def isFractional : Primitive → Bool
  | single | double | decimal => true
  | _ => false

def isNumeric (kind : Primitive) : Bool := kind.isInteger || kind.isFractional

def numericWidth : Primitive → Nat
  | byte => 1
  | int16 => 2
  | int32 => 3
  | int64 => 4
  | single => 5
  | double => 6
  | decimal => 7
  | _ => 0

def defaultText : Primitive → String
  | bool => "false"
  | byte | int16 | int32 | int64 => "0"
  | single | double => "0.0"
  | decimal => "0m"
  | string => "\"\""
  | dateTime => "default(DateTime)"
  | void | object => "null"

/-- The least numeric type that holds two numeric types: the wider of two integers, decimal for
decimal and an integer, and double for all else. -/
def widen (left right : Primitive) : Primitive :=
  if left.isInteger && right.isInteger then
    if right.numericWidth ≤ left.numericWidth then left else right
  else if (left == decimal && right.isInteger) || (right == decimal && left.isInteger) then decimal
  else double

end Primitive

end ScriptMigration
