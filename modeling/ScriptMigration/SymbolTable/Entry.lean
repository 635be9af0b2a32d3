import ScriptMigration.Descriptor.Binding
import ScriptMigration.Number.Core

/-! What a symbol table lists: members of external types, global constants and functions, and the
members that every form has. -/
namespace ScriptMigration

/-- How many arguments are taken; without a greatest number, any number from the least on. -/
structure Arity where
  least : Nat := 0
  most : Option Nat := some 0
deriving DecidableEq, Repr, Inhabited

namespace Arity

def none : Arity := {}

def exact (count : Nat) : Arity := ⟨count, some count⟩

def range (least most : Nat) : Arity := ⟨least, some most⟩

def atLeast (least : Nat) : Arity := ⟨least, Option.none⟩

def accepts (arity : Arity) (count : Nat) : Bool :=
  arity.least ≤ count && arity.most.all (count ≤ ·)

end Arity

inductive MemberKind where
  | property | method
deriving DecidableEq, Repr, Inhabited

structure SymbolMember where
  owner : Fingerprint
  name : String
  kind : MemberKind
  /-- The type of a property, or the result of a method. -/
  result : Descriptor
  arity : Arity

def SymbolMember.print (member : SymbolMember) : Fingerprint :=
  .ofMember member.owner member.name

structure SymbolConstant where
  name : String
  owner : ExternalType
  value : Descriptor

namespace SymbolConstant

def print (constant : SymbolConstant) : Fingerprint := .ofGlobal constant.name

/-- The characters that the last `count` bytes of a text spell. There are none if the bytes begin
inside a character. -/
def lastBytes? (count : Nat) (text : List Char) : Option (List Char) :=
  let width := (text.map Char.utf8Size).sum
  go (width - count) text
where
  go (skip : Nat) : List Char → Option (List Char)
    | [] => if skip == 0 then some [] else none
    | c :: rest =>
      if skip == 0 then some (c :: rest)
      else if c.utf8Size ≤ skip then go (skip - c.utf8Size) rest
      else none

/-- Whether the type that declares the constant is an enumeration, which its name ends in. There is
no answer for a name whose last four bytes begin inside a character. -/
def fromEnumeration? (constant : SymbolConstant) : Option Bool :=
  let name := constant.owner.name
  if name.utf8ByteSize < 4 then some false
  else (lastBytes? 4 name.toList).map fun ending => sameName (String.ofList ending) "enum"

end SymbolConstant

structure SymbolFunction where
  name : String
  owner : ExternalType
  result : Descriptor
  arity : Arity

def SymbolFunction.print (function : SymbolFunction) : Fingerprint := .ofGlobal function.name

structure FormSymbol where
  name : String
  kind : MemberKind
  result : Descriptor

end ScriptMigration
