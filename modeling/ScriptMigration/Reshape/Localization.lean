import ScriptMigration.Draft.Basic
import ScriptMigration.Options
import ScriptMigration.Output.Resources
import ScriptMigration.SymbolTable.Basic

/-! Texts that a script has translated move to a table, and the calls become references to its
entries. -/
namespace ScriptMigration

namespace LocalizedText

def translated? (symbols : SymbolTable) (options : MigrationOptions) (notes : Notes) (node : Node) :
    Option String :=
  match node.shape with
  | .call _ callee [arg] =>
    match notes.binding? callee.id, arg.shape with
    | some (.external print), .literal (.str text) => do
      let member ← symbols.members[print]?
      let owner ← symbols.type? member.owner
      if options.isTranslator owner.name then some text else none
    | _, _ => none
  | _ => none

end LocalizedText

open LocalizedText in
def Draft.moveTexts (draft : Draft) (symbols : SymbolTable) (options : MigrationOptions) :
    Draft × ResourceTable :=
  let text? := translated? symbols options draft.notes
  let found := draft.nodes.filterMap fun node => (text? node).map fun text => (node.id, text)
  let table := found.foldl
    (fun (table : ResourceTable) (_, text) => (table.intern options.resourceNameStart text).2) {}
  let refer (node : Node) : Node :=
    match (text? node).bind table.find? with
    | some entry => node.withShape (.resource entry.name entry.value)
    | none => node
  ({ draft with
    root := draft.root.mapUp refer
    notes := found.foldl (fun notes (id, _) => notes.describe id (.ofPrimitive .string))
      draft.notes }, table)

end ScriptMigration
