import ScriptMigration.Text.Blank
import ScriptMigration.Text.Name

/-! The keys of scripts: a family and a name in it. -/
namespace ScriptMigration

structure ScriptKey where
  family : String
  name : String
deriving DecidableEq, Repr, Inhabited

namespace ScriptKey

def render (key : ScriptKey) : String := key.family ++ ":" ++ key.name

/-- The name under which a script is found, which is its key as it is written. -/
def lookup (key : ScriptKey) : FoldedName := .of key.render

/-- Whether two keys have the same family and the same name. Keys with colons in their parts can be
different and still be found under one name. -/
def same (left right : ScriptKey) : Bool :=
  sameName left.family right.family && sameName left.name right.name

def parse? (text : String) : Option ScriptKey :=
  let chars := text.toList
  let family := Text.trimChars (chars.takeWhile (· != ':'))
  match chars.dropWhile (· != ':') with
  | [] => none
  | _ :: rest =>
    let name := Text.trimChars rest
    if family.isEmpty || name.isEmpty then none
    else some ⟨String.ofList family, String.ofList name⟩

end ScriptKey

end ScriptMigration
