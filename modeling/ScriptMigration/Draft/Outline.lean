import ScriptMigration.Draft.Basic
import ScriptMigration.SymbolTable.Basic
import ScriptMigration.Syntax.Outline

/-! Outlines of drafts. A note that names a node shows the number of the node, and the key of its
script where that is another one. -/
namespace ScriptMigration

structure ShownTree where
  script : ScriptId
  /-- How the script is called. -/
  label : String
  numbers : Numbering

/-- How a declaration is referred to from a script: a question mark stands for a tree that is not
shown, and a dash for a node that is no longer in its tree. -/
def DeclRef.shown (decl : DeclRef) (trees : List ShownTree) (script : ScriptId) : String :=
  match trees.find? (·.script == decl.script) with
  | none => "?"
  | some tree =>
    let label := if decl.script == script then "" else tree.label
    match tree.numbers[decl.node]? with
    | some number => s!"{label}@{number}"
    | none => s!"{label}@-"

def Descriptor.shown (ref : DeclRef → String) (descriptor : Descriptor) : String :=
  match descriptor with
  | .deferred decl => "deferred " ++ ref decl
  | .type { base := .script decl _, .. } => descriptor.render ++ " " ++ ref decl
  | _ => descriptor.render

namespace SymbolTable

private def entryName (owner : ExternalType) (name : String) : String :=
  owner.fullName ++ "." ++ name

def showBinding (symbols : SymbolTable) (script : ScriptId) (ref : DeclRef → String)
    (binding : Binding) : String :=
  match binding with
  | .returnValue node => "return " ++ ref ⟨script, node⟩
  | .localVar node => "local " ++ ref ⟨script, node⟩
  | .param node => "param " ++ ref ⟨script, node⟩
  | .member decl => "member " ++ ref decl
  | .outer decl => "outer " ++ ref decl
  | .dependency decl => "dependency " ++ ref decl
  | .constant print =>
    "constant " ++ (symbols.constants[print]?.elim "?" fun entry =>
      entryName entry.owner entry.name)
  | .function print =>
    "function " ++ (symbols.functions[print]?.elim "?" fun entry =>
      entryName entry.owner entry.name)
  | .external print =>
    "external " ++ (symbols.members[print]?.elim "?" fun member =>
      (symbols.type? member.owner).elim "?" fun owner => entryName owner member.name)
  | _ => binding.render

end SymbolTable

namespace Draft

def shownAs (draft : Draft) (script : ScriptId) (label : String) : ShownTree :=
  ⟨script, label, draft.root.numbering⟩

def outline (draft : Draft) (symbols : SymbolTable) (trees : List ShownTree) (script : ScriptId) :
    Outline :=
  let ref (decl : DeclRef) := decl.shown trees script
  draft.root.outlineIn {
    numbers := draft.root.numbering
    type := fun id => (draft.notes.descriptor? id).map (·.shown ref)
    binding := fun id => (draft.notes.binding? id).map (symbols.showBinding script ref)
    mode := draft.notes.mode }

end Draft

end ScriptMigration
