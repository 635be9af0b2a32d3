import ScriptMigration.Grammar.Fault
import ScriptMigration.Script.Key

/-! Include headers. A script names the scripts it includes in comments at the top of its text. -/
namespace ScriptMigration

/-- Why an include leads to nothing. -/
inductive IncludeFault where
  | notFound (key : ScriptKey)
  | unreadable (key : ScriptKey) (faults : List SyntaxFault)
  | malformed (entry : String) (line : Nat)
deriving DecidableEq, Repr

def IncludeFault.message : IncludeFault → String
  | notFound key => s!"included script '{key.render}' was not found"
  | unreadable key faults =>
    s!"included script '{key.render}' failed to parse: {SyntaxFault.renderAll faults}"
  | malformed entry line => s!"malformed include entry '{entry}' on line {line}"

structure IncludeEntry where
  key : ScriptKey
  line : Nat
deriving DecidableEq, Repr

/-- What one part of a header line stands for. -/
inductive HeaderItem where
  | entry (entry : IncludeEntry)
  | fault (fault : IncludeFault)
deriving DecidableEq, Repr

namespace Header

def lead : List Char := "including script -".toList

def dropFolded? (start text : List Char) : Option (List Char) :=
  if (text.take start.length).map Char.toLower == start then some (text.drop start.length)
  else none

def isOptionExplicit (line : String) : Bool :=
  (Text.words line).map foldCase == ["option", "explicit"]

def comment? : List Char → Option (List Char)
  | '\'' :: rest => some rest
  | line =>
    (dropFolded? "rem".toList line).filter fun rest => rest.head?.all Text.isBlank

def segment? (line : Nat) (text : List Char) : Option HeaderItem :=
  let text := Text.trimChars text
  let text := Text.trimChars ((dropFolded? lead text).getD text)
  if text.isEmpty then none
  else
    match ScriptKey.parse? (String.ofList text) with
    | some key => some (.entry ⟨key, line⟩)
    | none => some (.fault (.malformed (String.ofList text) line))

def commentItems (line : Nat) (comment : List Char) : List HeaderItem :=
  let comment := Text.trimChars comment
  if (dropFolded? lead comment).isSome then
    (Text.splitChars (· == '|') comment).filterMap (segment? line)
  else []

/-- The items of the lines of a header. It ends at the first line that is neither blank nor a
comment nor asks for declared variables. -/
def items : List (String × Nat) → List HeaderItem
  | [] => []
  | (text, line) :: rest =>
    let text := Text.trim text
    if text.isEmpty || isOptionExplicit text then items rest
    else
      match comment? text.toList with
      | some comment => commentItems line comment ++ items rest
      | none => []

end Header

structure IncludeHeader where
  entries : List IncludeEntry
  faults : List IncludeFault
deriving Repr

def IncludeHeader.read (text : String) : IncludeHeader :=
  let items := Header.items ((Text.lines text).zipIdx 1)
  { entries := items.filterMap fun
      | .entry entry => some entry
      | .fault _ => none
    faults := items.filterMap fun
      | .entry _ => none
      | .fault fault => some fault }

end ScriptMigration
