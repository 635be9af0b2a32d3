import ScriptMigration.Text.Blank
import ScriptMigration.Text.Name
import Std.Data.HashMap
import Std.Data.HashSet

/-! The table of localized texts. An entry is named for the words of its text, and no two names are
equal when letter case is ignored. -/
namespace ScriptMigration

structure ResourceText where
  name : String
  value : String
deriving DecidableEq, Repr

/-- The entries in the order of their first use. -/
structure ResourceTable where
  entries : List ResourceText := []
deriving Repr

namespace ResourceTable

def maxWords : Nat := 6

private def capitalized : List Char → List Char
  | [] => []
  | first :: rest => first.toUpper :: rest

def nameOf (value : String) : String :=
  let words := (Text.splitChars (!·.isAlphanum) value.toList).filter (!·.isEmpty)
  String.ofList ((words.take maxWords).flatMap capitalized)

def find? (table : ResourceTable) (value : String) : Option ResourceText :=
  table.entries.find? (·.value == value)

def get? (table : ResourceTable) (name : String) : Option String :=
  (table.entries.find? (·.name == name)).map (·.value)

def intern (table : ResourceTable) (start value : String) : String × ResourceTable :=
  match table.find? value with
  | some entry => (entry.name, table)
  | none =>
    let name := freshName (table.entries.map fun entry => .of entry.name) (start ++ nameOf value)
    (name, { entries := table.entries ++ [⟨name, value⟩] })

end ResourceTable

/-- The entries of a `ResourceTable` as they are kept, with the number of each text and the names that
are taken (`ResourceIndex.Indexes`). -/
structure ResourceIndex where
  entries : List ResourceText := []
  byValue : Std.HashMap String Nat := {}
  names : Std.HashSet FoldedName := {}

namespace ResourceIndex

def newName (index : ResourceIndex) (name : String) : String :=
  (((List.range (index.entries.length + 1)).map (numbered name)).find? fun candidate =>
    !index.names.contains (.of candidate)).getD name

def intern (index : ResourceIndex) (start value : String) : String × ResourceIndex :=
  match index.byValue[value]? with
  | some number => ((index.entries[number]?.map (·.name)).getD "", index)
  | none =>
    let name := index.newName (start ++ ResourceTable.nameOf value)
    (name, {
      entries := index.entries ++ [⟨name, value⟩]
      byValue := index.byValue.insert value index.entries.length
      names := index.names.insert (.of name) })

end ResourceIndex

end ScriptMigration
