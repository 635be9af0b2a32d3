import ScriptMigration.SymbolTable.Entry
import ScriptMigration.SymbolTable.Namespace
import Std.Data.HashMap

/-! The table of what scripts can use without declaring it: external types with their members,
constants, functions, names of classes to create, special names and the members of forms. -/
namespace ScriptMigration

structure SymbolTable where
  types : Std.HashMap Fingerprint ExternalType := {}
  /-- The types that a full or a simple name stands for. -/
  typeNames : Std.HashMap FoldedName (List Fingerprint) := {}
  members : Std.HashMap Fingerprint SymbolMember := {}
  /-- The member that stands for an object of the type where it is called or indexed. -/
  defaultMembers : Std.HashMap Fingerprint Fingerprint := {}
  constants : Std.HashMap Fingerprint SymbolConstant := {}
  functions : Std.HashMap Fingerprint SymbolFunction := {}
  classNames : Std.HashMap FoldedName Fingerprint := {}
  specialNames : Std.HashMap FoldedName SpecialName := {}
  formMembers : Std.HashMap FoldedName FormSymbol := {}
  formType : Option ExternalType := none
  errorType : Option ExternalType := none
  applicationType : Option ExternalType := none
  namespaces : NamespaceTable := {}

namespace SymbolTable

def empty : SymbolTable := {}

def type? (table : SymbolTable) (print : Fingerprint) : Option ExternalType := table.types[print]?

/-- The type of a full name, or of a simple name that only one type has. -/
def typeNamed? (table : SymbolTable) (name : String) : Option ExternalType :=
  match table.type? (.ofType name) with
  | some type => some type
  | none =>
    match table.typeNames[FoldedName.of name]? with
    | some [only] => table.type? only
    | _ => none

def isAmbiguous (table : SymbolTable) (name : String) (namespaces : List String) : Bool :=
  1 < ((table.namespaces.declaring name).filter fun space =>
    namespaces.any (sameName · space)).length

def member? (table : SymbolTable) (owner : Fingerprint) (name : String) : Option SymbolMember :=
  table.members[Fingerprint.ofMember owner name]?

def defaultMember? (table : SymbolTable) (owner : Fingerprint) : Option SymbolMember :=
  table.defaultMembers[owner]?.bind (table.members[·]?)

def constant? (table : SymbolTable) (name : String) : Option SymbolConstant :=
  table.constants[Fingerprint.ofGlobal name]?

def function? (table : SymbolTable) (name : String) : Option SymbolFunction :=
  table.functions[Fingerprint.ofGlobal name]?

def creatable? (table : SymbolTable) (className : String) : Option ExternalType :=
  table.classNames[FoldedName.of className]?.bind table.type?

def specialName? (table : SymbolTable) (name : String) : Option SpecialName :=
  table.specialNames[FoldedName.of name]?

def specialType? (table : SymbolTable) : SpecialName → Option ExternalType
  | .err => table.errorType
  | .application => table.applicationType
  | _ => none

def specialDescriptor (table : SymbolTable) : SpecialName → Descriptor
  | .now | .date | .time => .ofPrimitive .dateTime
  | .color => .ofPrimitive .int32
  | .me => .object
  | name =>
    match table.specialType? name with
    | some type => .ofExternal type
    | none => .object

def formMember? (table : SymbolTable) (name : String) : Option FormSymbol :=
  table.formMembers[FoldedName.of name]?

end SymbolTable

end ScriptMigration
