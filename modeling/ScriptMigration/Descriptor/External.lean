import ScriptMigration.Text.Digest
import ScriptMigration.Text.Name

/-! Types that compiled binaries define, and the fingerprints of external types, members and global
names. These ignore ASCII letter case, and a type, a member and a global of one name have different
ones. -/
namespace ScriptMigration

structure Fingerprint where
  word : UInt64
deriving DecidableEq, Repr, Hashable, Inhabited

namespace Fingerprint

def typeDomain : UInt64 := 0x2fac10b63a6cc57c
def memberDomain : UInt64 := 0x7d3c8b4a92e15f6d
def globalDomain : UInt64 := 0x5ea77ffbcdf5f302
def memberFactor : UInt64 := 0x4bc94d6bd06053ad

private def folded (name : String) : UInt64 := Digest.ofText (foldCase name)

def ofType (name : String) : Fingerprint := ⟨typeDomain ^^^ folded name⟩

def ofMember (owner : Fingerprint) (name : String) : Fingerprint :=
  ⟨(memberDomain ^^^ owner.word) * memberFactor + folded name⟩

/-- The fingerprint of a function or a constant that belongs to no object. -/
def ofGlobal (name : String) : Fingerprint := ⟨globalDomain ^^^ folded name⟩

private def hexDigits (count value : Nat) : List Char :=
  let digits := Nat.toDigits 16 value
  List.replicate (count - digits.length) '0' ++ digits

def render (print : Fingerprint) : String := "#" ++ String.ofList (hexDigits 16 print.word.toNat)

end Fingerprint

/-- A binary. One without a location is known to the target by its name. -/
structure Assembly where
  name : String
  location : Option String := none
deriving DecidableEq, Repr, Inhabited

def Assembly.render (assembly : Assembly) : String :=
  match assembly.location with
  | some location => s!"{assembly.name} ({location})"
  | none => assembly.name

def qualified (space name : String) : String :=
  if space.isEmpty then name else space ++ "." ++ name

structure ExternalType where
  space : String
  name : String
  assembly : Assembly
  isValueType : Bool := false
  /-- The fingerprint of the full name, by which types are told apart. -/
  print : Fingerprint := Fingerprint.ofType (qualified space name)
deriving Repr, Inhabited

namespace ExternalType

def fullName (type : ExternalType) : String := qualified type.space type.name

def ofFullName (name : String) (assembly : Assembly) (isValueType : Bool) : ExternalType :=
  let chars := name.toList.reverse
  { space := String.ofList ((chars.dropWhile (· != '.')).drop 1).reverse
    name := String.ofList (chars.takeWhile (· != '.')).reverse
    assembly, isValueType }

instance : BEq ExternalType := ⟨fun left right => left.print == right.print⟩

end ExternalType

end ScriptMigration
