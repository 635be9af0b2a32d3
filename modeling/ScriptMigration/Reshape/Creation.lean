import ScriptMigration.Draft.Basic
import ScriptMigration.SymbolTable.Basic

/-! A script creates objects of other programs by the names of their classes. Where the symbol table
knows the class, the call becomes a `New` of its type. -/
namespace ScriptMigration

namespace Creation

def functionName : String := "CreateObject"

def created? (symbols : SymbolTable) (function : SymbolFunction) (args : List Node) :
    Option ExternalType :=
  if sameName function.name functionName then
    match args.head?.map Node.shape with
    | some (.literal (.str className)) => symbols.creatable? className
    | _ => none
  else none

def nodeType? (symbols : SymbolTable) (notes : Notes) (node : Node) : Option ExternalType :=
  match node.shape with
  | .call _ callee args =>
    match notes.binding? callee.id with
    | some (.function print) => symbols.functions[print]?.bind (created? symbols · args)
    | _ => none
  | _ => none

end Creation

open Creation in
/-- Makes all calls that create known objects a `New`, and gives how many there were. -/
def Draft.typeCreations (draft : Draft) (symbols : SymbolTable) : Draft × Nat :=
  let found := draft.nodes.filterMap fun node =>
    (nodeType? symbols draft.notes node).map fun type => (node.id, type)
  let construct (node : Node) : Node :=
    match nodeType? symbols draft.notes node with
    | some type => node.withShape (.new type.fullName [])
    | none => node
  ({ draft with
    root := draft.root.mapUp construct
    notes := found.foldl (fun notes (id, type) => notes.describe id (.ofExternal type))
      draft.notes }, found.length)

end ScriptMigration
