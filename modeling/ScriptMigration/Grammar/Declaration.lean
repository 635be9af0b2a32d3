import ScriptMigration.Grammar.Statement

/-! Classes, procedures and the variables of a type. -/
namespace ScriptMigration.Declaration

open Reader Statement

def startsMember : TokenKind → Bool
  | .keyword .kwDim | .keyword .kwPublic | .keyword .kwPrivate | .keyword .kwConst
  | .keyword .kwSub | .keyword .kwFunction | .keyword .kwProperty => true
  | _ => false

def parameter (bound : Nat) : Reader Node := do
  let line ← line
  let isOptional ← eat (.keyword .kwOptional)
  let passing ← do
    if ← eat (.keyword .kwByVal) then pure ParamMode.byVal
    else
      let _ ← eat (.keyword .kwByRef)
      pure .byRef
  let paramArray ← eat (.keyword .kwParamArray)
  let name ← expectName
  let array ←
    if ← eat (.mark .leftParen) then do
      let _ ← expect (.mark .rightParen)
      pure true
    else pure paramArray
  let typeName ←
    if ← eat (.keyword .kwAs) then some <$> Expression.typeName bound else pure none
  let default ←
    if ← eat (.mark .equal) then some <$> Expression.whole bound else pure none
  make (.param { name, passing, typeName, default, marks := { isOptional, paramArray, array } })
    line

def parameters (bound : Nat) : Reader (List Node) := do
  let _ ← expect (.mark .leftParen)
  if ← eat (.mark .rightParen) then return []
  let params ← commaList (parameter bound) bound
  let _ ← expect (.mark .rightParen)
  return params

def procedureKind (opening : TokenKind) : Reader (MethodKind × Keyword) := do
  match opening with
  | .keyword .kwSub => return (.sub, .kwSub)
  | .keyword .kwFunction => return (.function, .kwFunction)
  | _ => do
    if ← eat (.keyword .kwSet) then return (.propertySet, .kwProperty)
    if ← eatWord "get" then return (.propertyGet, .kwProperty)
    if ← eatWord "let" then return (.propertyLet, .kwProperty)
    stop (.expected .accessorKind (← peekKind))

def procedure (visibility : Visibility) (marks : DeclMarks) (bound : Nat) : Reader Node := do
  let first ← advance
  let (kind, closer) ← procedureKind first.kind
  let name ← expectName
  let params ← if ← at? (.mark .leftParen) then parameters bound else pure []
  let returnType ←
    if ← eat (.keyword .kwAs) then some <$> Expression.typeName bound else pure none
  expectEnd
  let body ← block (Statement.read bound) bound (· == .keyword .kwEnd)
  let _ ← expect (.keyword .kwEnd)
  let _ ← expect (.keyword closer)
  let method ← make (.method { name, visibility, kind, params, returnType, body, marks })
    first.span.line (← lastLine)
  expectEnd
  return method

def members (bound : Nat) : Reader (List Node) := do
  let (visibility, default) ← do
    if ← eat (.keyword .kwPublic) then pure (Visibility.everyone, ← eatWord "default")
    else if ← eat (.keyword .kwPrivate) then pure (.owner, false)
    else pure (.undecided, false)
  let terminated (reader : Reader Node) : Reader (List Node) := do
    let nodes ← commaList reader bound
    expectEnd
    return nodes
  match ← peekKind with
  | .keyword .kwSub | .keyword .kwFunction | .keyword .kwProperty =>
    List.singleton <$> procedure visibility { default } bound
  | .keyword .kwConst => do
    let _ ← advance
    terminated (constantDecl visibility .member bound)
  | .keyword .kwDim => do
    let _ ← advance
    terminated (variableDecl visibility .member bound)
  | .identifier =>
    if visibility.isDecided then terminated (variableDecl visibility .member bound)
    else stop (.expectedDeclaration .identifier)
  | kind => stop (.expectedDeclaration kind)

def classMembers (nested : Reader Node) (className : String) (first : Span) :
    (bound : Nat) → Reader (List Node)
  | 0 => exhausted
  | bound + 1 => do
    skipSeparators
    let kind ← peekKind
    if kind == .keyword .kwEnd then return []
    if kind == .endOfText then throw ⟨.unclosedClass className, first⟩
    let found ← recovering (
      if kind == .keyword .kwClass then List.singleton <$> nested
      else if startsMember kind then members (bound + 1)
      else stop (.expectedMember className kind)) []
    return found ++ (← classMembers nested className first bound)

def classDecl : (bound : Nat) → Reader Node
  | 0 => exhausted
  | bound + 1 => do
    let first ← expect (.keyword .kwClass)
    let name ← expectName
    expectEnd
    let members ← classMembers (classDecl bound) name first.span (bound + 1)
    let _ ← expect (.keyword .kwEnd)
    let _ ← expect (.keyword .kwClass)
    let decl ← make (.type { name, members }) first.span.line (← lastLine)
    expectEnd
    return decl

end ScriptMigration.Declaration
