import ScriptMigration.Token.Kind

/-! Faults of a text that is no module, and their wording. -/
namespace ScriptMigration

inductive Expectation where
  | token (kind : TokenKind)
  | word (text : String)
  | accessorKind
  | comparison
  | exitTarget
deriving DecidableEq, Repr

def Expectation.description : Expectation → String
  | token kind => kind.description
  | word text => "'" ++ text ++ "'"
  | accessorKind => "'Get', 'Let' or 'Set'"
  | comparison => "comparison operator"
  | exitTarget => "'Sub', 'Function', 'Property', 'For' or 'Do'"

inductive FaultCategory where
  | expectedToken | unexpectedToken | expectedExpression | expectedIdentifier
  | expectedStatement | unclosedBlock | invalidDeclaration | invalidLiteral | invalidSyntax
deriving DecidableEq, Repr

def FaultCategory.text : FaultCategory → String
  | expectedToken => "expected token"
  | unexpectedToken => "unexpected token"
  | expectedExpression => "expected expression"
  | expectedIdentifier => "expected identifier"
  | expectedStatement => "expected statement"
  | unclosedBlock => "unclosed block"
  | invalidDeclaration => "invalid declaration"
  | invalidLiteral => "invalid literal"
  | invalidSyntax => "invalid syntax"

/-- Why a text is no module. -/
inductive SyntaxCause where
  | expected (wanted : Expectation) (found : TokenKind)
  | expectedName (found : TokenKind)
  | expectedValue (found : TokenKind)
  | expectedStatement (found : TokenKind)
  | expectedMember (className : String) (found : TokenKind)
  | expectedTerminator (found : TokenKind)
  | afterExpression (found : TokenKind)
  | unclosedBlock
  | unclosedClass (name : String)
  | expectedDeclaration (found : TokenKind)
  | invalidNumber (literal : String)
  /-- An error trap that jumps to a line. -/
  | unsupportedTrap
  | lexical (fault : LexicalFault)
  /-- More nesting than a text of this length can hold. -/
  | nestedTooDeep
deriving DecidableEq, Repr

namespace SyntaxCause

def category : SyntaxCause → FaultCategory
  | expected .. => .expectedToken
  | expectedName _ => .expectedIdentifier
  | expectedValue _ => .expectedExpression
  | expectedStatement _ | expectedMember .. => .expectedStatement
  | expectedTerminator _ | afterExpression _ => .unexpectedToken
  | unclosedBlock | unclosedClass _ => .unclosedBlock
  | expectedDeclaration _ => .invalidDeclaration
  | invalidNumber _ => .invalidLiteral
  | unsupportedTrap | lexical _ | nestedTooDeep => .invalidSyntax

def message : SyntaxCause → String
  | expected wanted found => s!"expected {wanted.description}, found {found.description}"
  | expectedName found => s!"expected a name, found {found.description}"
  | expectedValue found => s!"expected a value, found {found.description}"
  | expectedStatement found => s!"expected a statement, found {found.description}"
  | expectedMember className found =>
    s!"expected a member declaration in class '{className}', found {found.description}"
  | expectedTerminator found => s!"expected end of statement, found {found.description}"
  | afterExpression found => s!"unexpected {found.description} after expression"
  | unclosedBlock => "unexpected end of file inside a block"
  | unclosedClass name => s!"class '{name}' is missing 'End Class'"
  | expectedDeclaration found => s!"expected a declaration, found {found.description}"
  | invalidNumber literal => s!"invalid numeric literal '{literal}'"
  | unsupportedTrap => "only 'On Error GoTo 0' is supported"
  | lexical fault => fault.message
  | nestedTooDeep => "too deeply nested"

end SyntaxCause

/-- A fault at its place. -/
structure SyntaxFault where
  cause : SyntaxCause
  span : Span
deriving DecidableEq, Repr

namespace SyntaxFault

def ofLexical (fault : LexicalFault) : SyntaxFault := ⟨.lexical fault, fault.span⟩

def message (fault : SyntaxFault) : String := fault.cause.message

def render (fault : SyntaxFault) : String :=
  s!"{fault.cause.category.text} at {fault.span.render}: {fault.message}"

def renderAll (faults : List SyntaxFault) : String :=
  "\n".intercalate (faults.map render)

end SyntaxFault

end ScriptMigration
