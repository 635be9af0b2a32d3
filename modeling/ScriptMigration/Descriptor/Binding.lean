import ScriptMigration.Descriptor.Basic

/-! What a name stands for. -/
namespace ScriptMigration

/-- Names with a fixed meaning. -/
inductive SpecialName where
  | me | now | date | time | color | err | application
deriving DecidableEq, Repr, Inhabited

def SpecialName.text : SpecialName → String
  | me => "Me"
  | now => "Now"
  | date => "Date"
  | time => "Time"
  | color => "Color"
  | err => "Err"
  | application => "Application"

inductive Binding where
  /-- The result of the procedure around the name. -/
  | returnValue (method : NodeId)
  | form
  | localVar (decl : NodeId)
  | param (decl : NodeId)
  /-- A member of the type around the name. -/
  | member (decl : DeclRef)
  /-- A member of a type around that type. -/
  | outer (decl : DeclRef)
  /-- The root type of another script, or a member of it. -/
  | dependency (decl : DeclRef)
  | formMember (name : String)
  | constant (print : Fingerprint)
  | function (print : Fingerprint)
  | special (name : SpecialName)
  | external (print : Fingerprint)
  /-- A member that is only known when the program runs. -/
  | late
  | unresolved
deriving DecidableEq, Repr

namespace Binding

def decl? : Binding → Option DeclRef
  | member decl | outer decl | dependency decl => some decl
  | _ => none

def isResolved (binding : Binding) : Bool := binding != unresolved

def render : Binding → String
  | returnValue method => s!"return value of {method.render}"
  | form => "form"
  | localVar decl => s!"local {decl.render}"
  | param decl => s!"parameter {decl.render}"
  | member decl => s!"member {decl.render}"
  | outer decl => s!"outer member {decl.render}"
  | dependency decl => s!"dependency member {decl.render}"
  | formMember name => s!"form member {name}"
  | constant print => s!"runtime constant {print.render}"
  | function print => s!"runtime function {print.render}"
  | special name => s!"keyword {name.text}"
  | external print => s!"external member {print.render}"
  | late => "late bound"
  | unresolved => "unresolved"

end Binding

end ScriptMigration
