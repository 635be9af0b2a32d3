import ScriptMigration.Syntax.Walk

/-! Attaching comments to declarations. A comment goes to the smallest field, procedure or property
whose lines hold it. If there is none it goes to the next member of the smallest type whose lines
hold it, and if that has no later member, to the type itself. -/
namespace ScriptMigration.Attachment

/-- The last line of a node, never before its first. -/
def lastLine (node : Node) : Nat := max node.lastLine node.line

def holds (node : Node) (line : Nat) : Bool := node.line ≤ line && line ≤ lastLine node

def firstLeast {α : Type} (key : α → Nat) : List α → Option α
  | [] => none
  | a :: rest =>
    match firstLeast key rest with
    | none => some a
    | some best => if key best < key a then some best else some a

def smallest (places : List Place) (line : Nat) : Option Node :=
  (firstLeast (fun place : Place => lastLine place.node - place.node.line)
    (places.filter fun place => holds place.node line)).map Place.node

/-- The node that a comment on a line belongs to; `members` are the members below the root. -/
def owner (root : Node) (members : List Place) (line : Nat) : NodeId :=
  let (types, plain) := members.partition (·.node.shape.isType)
  match smallest plain line with
  | some member => member.id
  | none =>
    let enclosing := (smallest types line).getD root
    let later := members.filter fun place =>
      line < place.node.line && place.type?.map Node.id == some enclosing.id
    match firstLeast (fun place : Place => place.node.line) later with
    | some place => place.node.id
    | none => enclosing.id

def attachComments (root : Node) (comments : List Comment) : Node :=
  let members := (root.places.drop 1).filter (·.node.shape.isMember)
  let owned := comments.map fun comment => (owner root members comment.line, comment)
  if owned.isEmpty then root
  else root.mapUp fun node =>
    let mine := (owned.filter (·.1 == node.id)).map (·.2)
    node.withInfo { node.info with comments := node.info.comments ++ mine }

end ScriptMigration.Attachment
