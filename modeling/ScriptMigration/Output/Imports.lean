import ScriptMigration.Draft.Basic
import ScriptMigration.SymbolTable.Basic

/-! The external types that a draft uses, as types of its nodes or as owners of what its names stand
for, the binaries that it needs for them, and the namespaces that it imports. A type whose simple name
more than one of these declares is written with its full name. -/
namespace ScriptMigration

def Descriptor.external? : Descriptor → Option ExternalType
  | .type { base := .external found, .. } => some found
  | _ => none

namespace SymbolTable

def ownerOf? (symbols : SymbolTable) : Binding → Option ExternalType
  | .constant print => symbols.constants[print]?.map (·.owner)
  | .function print => symbols.functions[print]?.map (·.owner)
  | .external print => symbols.members[print]?.bind fun member => symbols.type? member.owner
  | .special name => symbols.specialType? name
  | .form | .formMember _ => symbols.formType
  | _ => none

end SymbolTable

/-- The external types that the nodes of a draft use, each once and in the order of first use. -/
def Draft.externalTypes (draft : Draft) (symbols : SymbolTable) : List ExternalType :=
  (draft.nodes.flatMap fun node =>
    ((draft.notes.descriptor? node.id).bind Descriptor.external?).toList
      ++ ((draft.notes.binding? node.id).bind symbols.ownerOf?).toList).eraseDups

/-- Binaries are ordered by name, and of one name the one without a location comes first. -/
def Assembly.le (left right : Assembly) : Bool :=
  if left.name == right.name then
    match left.location, right.location with
    | none, _ => true
    | some _, none => false
    | some left, some right => left ≤ right
  else left.name ≤ right.name

def Draft.assemblies (draft : Draft) (symbols : SymbolTable) : List Assembly :=
  ((draft.externalTypes symbols).map (·.assembly)).eraseDups.mergeSort Assembly.le

structure Imports where
  namespaces : List String := []
  /-- The full names of the types that cannot be written with their simple names. -/
  qualified : List String := []
deriving DecidableEq, Repr

namespace Imports

def printedName (imports : Imports) (space name : String) : String :=
  let full := space ++ "." ++ name
  if imports.qualified.any (sameName · full) then full else name

def isEmpty (imports : Imports) : Bool := imports.namespaces.isEmpty

def firstPart (space : String) : String := String.ofList (space.toList.takeWhile (· != '.'))

def group (base space : String) : Nat :=
  if sameName space base then 0 else if sameName (firstPart space) (firstPart base) then 1 else 2

def le (base left right : String) : Bool :=
  if group base left != group base right then group base left ≤ group base right
  else if foldCase left != foldCase right then foldCase left ≤ foldCase right
  else left ≤ right

end Imports

namespace Draft

def nodeNamespaces (draft : Draft) (script : ScriptId) (base : String) (id : NodeId) :
    List String :=
  let ofType :=
    match draft.notes.descriptor? id with
    | some (.type { base := .primitive kind, .. }) => kind.namespace?.toList
    | some (.type { base := .script decl _, .. }) => if decl.script != script then [base] else []
    | _ => []
  let ofBinding :=
    match draft.notes.binding? id with
    | some (.dependency _) => [base]
    | _ => []
  ofType ++ ofBinding

def imports (draft : Draft) (script : ScriptId) (symbols : SymbolTable) (base : String) :
    Imports :=
  let types := draft.externalTypes symbols
  let needed := types.map (·.space)
    ++ draft.nodes.flatMap fun node => draft.nodeNamespaces script base node.id
  let namespaces := ((needed.filter (!·.isEmpty)).eraseDupsBy sameName).mergeSort (Imports.le base)
  { namespaces
    qualified := (((types.filter fun type => symbols.isAmbiguous type.name namespaces).map
      (·.fullName)).eraseDups).mergeSort fun left right => left ≤ right }

end Draft

end ScriptMigration
