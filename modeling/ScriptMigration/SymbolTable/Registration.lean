import ScriptMigration.SymbolTable.Basic

/-! Building a symbol table entry by entry. An entry that cannot be added leaves the table as it
is. -/
namespace ScriptMigration

inductive RegistrationFault where
  | duplicateType (name : String)
  | duplicateMember (owner member : String)
  | unknownOwner (owner member : String)
  /-- It cannot be told whether a name ends in the word for enumerations. -/
  | unreadableEnding (name : String)
deriving DecidableEq, Repr

def RegistrationFault.message : RegistrationFault → String
  | duplicateType name => s!"type '{name}' is already registered"
  | duplicateMember owner member => s!"member '{member}' of '{owner}' is already registered"
  | unknownOwner owner member => s!"'{member}' names an unregistered owner type '{owner}'"
  | unreadableEnding name => s!"the ending of '{name}' is no text"

/-- An entry of a symbol table. -/
inductive Registration where
  | type (type : ExternalType)
  | member (owner : ExternalType) (name : String) (kind : MemberKind) (result : Descriptor)
    (arity : Arity)
  | defaultMember (owner : ExternalType) (name : String)
  | constant (owner : ExternalType) (name : String) (value : Descriptor)
  | function (owner : ExternalType) (name : String) (result : Descriptor) (arity : Arity)
  | className (name : String) (type : ExternalType)
  | specialName (name : String) (meaning : SpecialName)
  | formMember (name : String) (kind : MemberKind) (result : Descriptor)
  | formType (type : ExternalType)
  | errorType (type : ExternalType)
  | applicationType (type : ExternalType)

namespace SymbolTable

private def addName (names : Std.HashMap FoldedName (List Fingerprint)) (name : String)
    (print : Fingerprint) : Std.HashMap FoldedName (List Fingerprint) :=
  names.insert (.of name) (names.getD (.of name) [] ++ [print])

def addType (table : SymbolTable) (type : ExternalType) :
    Except RegistrationFault SymbolTable :=
  if table.types.contains type.print then .error (.duplicateType type.fullName)
  else
    let names := addName table.typeNames type.fullName type.print
    .ok { table with
      types := table.types.insert type.print type
      typeNames := if type.space.isEmpty then names else addName names type.name type.print
      namespaces := table.namespaces.addType (namespaceParts type.space) type.name }

def addMember (table : SymbolTable) (owner : ExternalType) (member : SymbolMember) :
    Except RegistrationFault SymbolTable :=
  if !table.types.contains owner.print then .error (.unknownOwner owner.fullName member.name)
  else if table.members.contains member.print then
    .error (.duplicateMember owner.fullName member.name)
  else .ok { table with members := table.members.insert member.print member }

def nameDefaultMember (table : SymbolTable) (owner : ExternalType) (name : String) :
    Except RegistrationFault SymbolTable :=
  let print := Fingerprint.ofMember owner.print name
  if !table.members.contains print then .error (.unknownOwner owner.fullName name)
  else .ok { table with defaultMembers := table.defaultMembers.insert owner.print print }

/-- Adds a constant. Of two constants of one name, one of an enumeration goes before one of another
type, and else the first stays. -/
def addConstant (table : SymbolTable) (constant : SymbolConstant) :
    Except RegistrationFault SymbolTable :=
  let added := { table with constants := table.constants.insert constant.print constant }
  match table.constants[constant.print]? with
  | none => .ok added
  | some existing =>
    match existing.fromEnumeration? with
    | none => .error (.unreadableEnding existing.owner.name)
    | some true => .ok table
    | some false =>
      match constant.fromEnumeration? with
      | none => .error (.unreadableEnding constant.owner.name)
      | some true => .ok added
      | some false => .ok table

def addFunction (table : SymbolTable) (function : SymbolFunction) : SymbolTable :=
  if table.functions.contains function.print then table
  else { table with functions := table.functions.insert function.print function }

def register (table : SymbolTable) : Registration → Except RegistrationFault SymbolTable
  | .type type => table.addType type
  | .member owner name kind result arity =>
    table.addMember owner { owner := owner.print, name, kind, result, arity }
  | .defaultMember owner name => table.nameDefaultMember owner name
  | .constant owner name value => table.addConstant { name, owner, value }
  | .function owner name result arity => .ok (table.addFunction { name, owner, result, arity })
  | .className name type =>
    .ok { table with classNames := table.classNames.insert (.of name) type.print }
  | .specialName name meaning =>
    .ok { table with specialNames := table.specialNames.insert (.of name) meaning }
  | .formMember name kind result =>
    .ok { table with formMembers := table.formMembers.insert (.of name) { name, kind, result } }
  | .formType type => .ok { table with formType := some type }
  | .errorType type => .ok { table with errorType := some type }
  | .applicationType type => .ok { table with applicationType := some type }

end SymbolTable

end ScriptMigration
