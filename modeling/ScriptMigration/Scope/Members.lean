import ScriptMigration.Descriptor.Basic
import ScriptMigration.Syntax.Walk
import Std.Data.HashMap

/-! The names that types and procedures declare, and what the scripts that a script depends on declare:
their root types and the members of these. Of several declarations of a name, the first counts; of
several scripts that of the first script, and in a script its root type. -/
namespace ScriptMigration

namespace Node

/-- The name by which a member of a type can be used. Constructors and destructors have none. -/
def memberName? (member : Node) : Option String :=
  match member.shape with
  | .method decl => if decl.kind.isLifecycle then none else some decl.name
  | shape => shape.declName?

def findMember? (type : Node) (name : String) : Option Node :=
  type.typeDecl?.bind fun decl =>
    decl.members.find? fun member => member.memberName?.any (sameName · name)

end Node

structure RepeatedMember where
  name : String
  line : Nat
deriving DecidableEq, Repr

/-- What a type declares. The members of each kind have a table of their own. -/
structure MemberScope where
  name : String
  /-- The type around it. -/
  outer : Option NodeId
  fields : Std.HashMap FoldedName Node := {}
  methods : Std.HashMap FoldedName Node := {}
  properties : Std.HashMap FoldedName Node := {}
  types : Std.HashMap FoldedName Node := {}
  duplicates : List RepeatedMember := []

namespace MemberScope

def declares (scope : MemberScope) (key : FoldedName) : Bool :=
  scope.fields.contains key || scope.methods.contains key || scope.properties.contains key ||
    scope.types.contains key

def addMember (scope : MemberScope) (member : Node) : MemberScope :=
  match member.memberName? with
  | none => scope
  | some name =>
    let key := FoldedName.of name
    if scope.declares key then
      { scope with duplicates := scope.duplicates ++ [⟨name, member.line⟩] }
    else
      match member.shape with
      | .field _ => { scope with fields := scope.fields.insert key member }
      | .method _ => { scope with methods := scope.methods.insert key member }
      | .property _ => { scope with properties := scope.properties.insert key member }
      | .type _ => { scope with types := scope.types.insert key member }
      | _ => scope

def ofDecl (decl : TypeDecl Node) (outer : Option NodeId) : MemberScope :=
  decl.members.foldl addMember { name := decl.name, outer }

/-- What the tables have under a key: those of the fields, the procedures, the properties and the types
are tried in this order. -/
def lookup? (scope : MemberScope) (key : FoldedName) : Option Node :=
  scope.fields[key]?.or (scope.methods[key]?.or (scope.properties[key]?.or scope.types[key]?))

def find? (scope : MemberScope) (name : String) : Option Node := scope.lookup? (.of name)

def findType? (scope : MemberScope) (name : String) : Option Node :=
  (scope.find? name).filter (·.shape.isType)

def members (scope : MemberScope) : Array Node :=
  scope.fields.valuesArray ++ scope.methods.valuesArray ++ scope.properties.valuesArray ++
    scope.types.valuesArray

end MemberScope

/-- The local variables and the parameters of a procedure. -/
structure LocalScope where
  locals : Std.HashMap FoldedName NodeId := {}
  params : Std.HashMap FoldedName NodeId := {}

namespace LocalScope

def addLocal (scope : LocalScope) (name : String) (id : NodeId) : LocalScope :=
  { scope with locals := scope.locals.insertIfNew (.of name) id }

def addParam (scope : LocalScope) (name : String) (id : NodeId) : LocalScope :=
  { scope with params := scope.params.insertIfNew (.of name) id }

def ofDecl (decl : MethodDecl Node) : LocalScope :=
  let scope := decl.params.foldl (fun (scope : LocalScope) param =>
    match param.paramDecl? with
    | some entry => scope.addParam entry.name param.id
    | none => scope) {}
  decl.body.ownDescendants.foldl (fun scope node =>
    match node.shape with
    | .localVar entry => scope.addLocal entry.name node.id
    | _ => scope) scope

def local? (scope : LocalScope) (name : String) : Option NodeId := scope.locals[FoldedName.of name]?

def param? (scope : LocalScope) (name : String) : Option NodeId := scope.params[FoldedName.of name]?

end LocalScope

/-- The scopes of the types and procedures of a tree. -/
structure ScopeIndex where
  types : Std.HashMap NodeId MemberScope := {}
  bodies : Std.HashMap NodeId LocalScope := {}

namespace ScopeIndex

def addPlace (index : ScopeIndex) (place : Place) : ScopeIndex :=
  match place.node.shape with
  | .type decl =>
    { index with
      types := index.types.insert place.node.id (.ofDecl decl (place.type?.map Node.id)) }
  | .method decl => { index with bodies := index.bodies.insert place.node.id (.ofDecl decl) }
  | _ => index

def ofTree (root : Node) : ScopeIndex := root.places.foldl addPlace {}

end ScopeIndex

structure IncludedNames where
  decls : Std.HashMap FoldedName DeclRef := {}

namespace IncludedNames

def add (scope : IncludedNames) (name : String) (decl : DeclRef) : IncludedNames :=
  { decls := scope.decls.insertIfNew (.of name) decl }

/-- The names of the root type of a script and of its members, with what they declare. -/
def declared (script : ScriptId) (root : Node) : List (String × DeclRef) :=
  match root.typeDecl? with
  | none => []
  | some decl =>
    (decl.name, ⟨script, root.id⟩) :: decl.members.filterMap fun member =>
      member.memberName?.map fun name => (name, ⟨script, member.id⟩)

def ofScripts (scripts : List (ScriptId × Node)) : IncludedNames :=
  (scripts.flatMap fun (script, root) => declared script root).foldl
    (fun scope (name, decl) => scope.add name decl) {}

def find? (scope : IncludedNames) (name : String) : Option DeclRef :=
  scope.decls[FoldedName.of name]?

def size (scope : IncludedNames) : Nat := scope.decls.size

end IncludedNames

end ScriptMigration
