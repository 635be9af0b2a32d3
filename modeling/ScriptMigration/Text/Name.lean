/-! Names of the dialect. Two spellings that differ in ASCII letter case only are one name; other
letters are kept apart. `FoldedName` is the folded spelling, which maps use as their key. A name that
has to be new is taken as it is wished, or else with the first number that makes it new. -/
namespace ScriptMigration

/-- A name with its ASCII letters in lower case. -/
structure FoldedName where
  text : String
deriving DecidableEq, Hashable, Repr, Inhabited

namespace FoldedName

def of (name : String) : FoldedName := ⟨name.map Char.toLower⟩

end FoldedName

/-- The spelling of a text with its ASCII letters in lower case. -/
def foldCase (text : String) : String := (FoldedName.of text).text

def sameName (left right : String) : Bool := FoldedName.of left == FoldedName.of right

def numbered (name : String) (number : Nat) : String :=
  if number == 0 then name else name ++ toString number

/-- The first of a name, the name with 1, with 2 and so on that is none of the given names. One of
the first `taken.length + 1` candidates is free. -/
def freshName (taken : List FoldedName) (name : String) : String :=
  (((List.range (taken.length + 1)).map (numbered name)).find? fun candidate =>
    !taken.contains (.of candidate)).getD name

end ScriptMigration
