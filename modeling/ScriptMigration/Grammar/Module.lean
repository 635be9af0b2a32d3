import ScriptMigration.Grammar.Declaration
import ScriptMigration.Grammar.Attachment
import ScriptMigration.Syntax.Walk

/-! Reading a text as a module. A text that is one class is that class. Any other text is a type
named for the module, whose constructor holds the loose statements; a `Dim` outside procedures is a
field of it where a procedure or a class uses its name, and a local variable of the constructor
where none does. -/
namespace ScriptMigration

/-- What a text declares at its top level. -/
structure TopLevel where
  explicit : Bool := false
  /-- Fields, procedures and classes in source order. -/
  members : List Node := []
  /-- Loose statements in source order, with each top-level `Dim` at its place. -/
  loose : List Node := []
  classes : Nat := 0

namespace TopLevel

def append (first second : TopLevel) : TopLevel where
  explicit := first.explicit || second.explicit
  members := first.members ++ second.members
  loose := first.loose ++ second.loose
  classes := first.classes + second.classes

end TopLevel

namespace ModuleText

open Reader

def markModuleDim (node : Node) : Node :=
  match node.shape with
  | .field decl =>
    node.withShape (.field { decl with marks := { decl.marks with moduleDim := true } })
  | _ => node

def isModuleDim (node : Node) : Bool := node.varDecl?.any (·.marks.moduleDim)

def item (bound : Nat) : Reader TopLevel := do
  let kind ← peekKind
  if kind == .keyword .kwOption then
    let _ ← advance
    expectWord "explicit"
    expectEnd
    return { explicit := true }
  else if kind == .keyword .kwClass then
    return { members := [← Declaration.classDecl bound], classes := 1 }
  else if Declaration.startsMember kind then
    let decls ← Declaration.members bound
    if kind == .keyword .kwDim then
      let decls := decls.map markModuleDim
      return { members := decls, loose := decls }
    return { members := decls }
  else
    let loose ← Statement.read bound
    expectEnd
    return { loose }

/-- All items of a text; after a fault, reading goes on with the next line. -/
def items : (bound : Nat) → Reader TopLevel
  | 0 => exhausted
  | bound + 1 => do
    skipSeparators
    if ← at? .endOfText then return {}
    let first ← recovering (item (bound + 1)) {}
    return first.append (← items bound)

def usedNames (members : List Node) : List FoldedName :=
  (members.filter fun member => member.shape.isMethod || member.shape.isType).flatMap fun member =>
    member.descendants.filterMap fun node => node.nameText?.map FoldedName.of

def asLocal (node : Node) : Node :=
  match node.shape with
  | .field decl => node.withShape (.localVar decl)
  | _ => node

def folded? (declaration next : Node) : Option Node :=
  match declaration.shape, next.shape with
  | .localVar decl, .assign _ target value =>
    if decl.init.isNone && decl.array.isNone && target.nameText?.any (sameName · decl.name) then
      some (declaration.withShape (.localVar { decl with init := some value }))
    else none
  | _, _ => none

def joinInitializers : List Node → List Node
  | declaration :: next :: rest =>
    match folded? declaration next with
    | some declaration => declaration :: joinInitializers rest
    | none => declaration :: joinInitializers (next :: rest)
  | stmts => stmts

def constructor? (name : String) (body : List Node) : Reader (Option Node) := do
  match body with
  | [] => return none
  | first :: _ => do
    let line := first.line
    let lastLine := (body.map Node.lastLine).foldl max 0
    let block ← make (.block body) line lastLine
    some <$> make (.method {
      name, visibility := .everyone, kind := .constructor, body := block
      marks := { synthesized := true } }) line lastLine

def shape (name : String) (items : TopLevel) : Reader Node := do
  match items.classes, items.members, items.loose with
  | 1, [decl], [] => return decl
  | _, _, _ => do
    let used := usedNames items.members
    let isField (node : Node) :=
      !isModuleDim node || node.declName?.any fun name => used.contains (FoldedName.of name)
    let members := items.members.filter isField
    let loose := (items.loose.filter fun node => !(isModuleDim node && isField node)).map asLocal
    let constructor ← constructor? name (joinInitializers loose)
    let isFieldNode (node : Node) := node.shape.isField
    let members :=
      members.takeWhile isFieldNode ++ constructor.toList ++ members.dropWhile isFieldNode
    make (.type { name, visibility := .everyone, members, marks := { implicit := true } }) 1
      (max (← lastLine) 1)

end ModuleText

open ModuleText in
/-- Reads a text as the module of the given name, or gives its faults in the order in which they
were met. -/
def parseModule (text name : String) : Except (List SyntaxFault) Module :=
  let lexed := lex text
  if !lexed.faults.isEmpty then .error (lexed.faults.map .ofLexical)
  else
    let bound := lexed.tokens.length + 1
    let reader : Reader (TopLevel × Node) := do
      let items ← items bound
      return (items, ← shape name items)
    match reader (.start lexed) with
    | .error fault state => .error (state.noted.reverse ++ [fault])
    | .ok (items, root) state =>
      if !state.noted.isEmpty then .error state.noted.reverse
      else .ok {
        name, explicit := items.explicit, root := Attachment.attachComments root lexed.comments
        parents := ParentLinks.relink {} root, fresh := state.fresh }

def parseExpression (text : String) : Except SyntaxFault Node :=
  let lexed := lex text
  match lexed.faults with
  | fault :: _ => .error (.ofLexical fault)
  | [] =>
    let reader : Reader Node := do
      let expr ← Expression.whole (lexed.tokens.length + 1)
      Reader.skipSeparators
      let kind ← Reader.peekKind
      if kind != .endOfText then Reader.stop (.afterExpression kind)
      return expr
    match reader (.start lexed) with
    | .error fault _ => .error fault
    | .ok expr _ => .ok expr

end ScriptMigration
