/-! Messages about a batch. A bag delivers each message once. -/
namespace ScriptMigration

namespace Text

def occursIn (needle : List Char) : List Char → Bool
  | [] => needle.isEmpty
  | c :: rest => needle.isPrefixOf (c :: rest) || occursIn needle rest

end Text

inductive Severity where
  | warning | error
deriving DecidableEq, Repr, Inhabited

def Severity.text : Severity → String
  | warning => "warning"
  | error => "error"

structure Diagnostic where
  severity : Severity := .warning
  message : String
  /-- The control of a form that the message belongs to. -/
  owner : Option String := none
deriving DecidableEq, Repr, Inhabited

def Diagnostic.render (diagnostic : Diagnostic) : String :=
  match diagnostic.owner with
  | some owner => s!"{diagnostic.severity.text}: [{owner}] {diagnostic.message}"
  | none => s!"{diagnostic.severity.text}: {diagnostic.message}"

/-- The messages delivered so far, in order and without repeats. -/
structure DiagnosticLog where
  delivered : List Diagnostic := []

namespace DiagnosticLog

/-- Delivers a message, unless it was delivered before. -/
def report (bag : DiagnosticLog) (diagnostic : Diagnostic) : DiagnosticLog :=
  if bag.delivered.any (·.render == diagnostic.render) then bag
  else { delivered := bag.delivered ++ [diagnostic] }

def warn (bag : DiagnosticLog) (message : String) : DiagnosticLog := bag.report { message }

def mentions (bag : DiagnosticLog) (text : String) : Bool :=
  bag.delivered.any fun diagnostic => Text.occursIn text.toList diagnostic.message.toList

def warningCount (bag : DiagnosticLog) : Nat :=
  (bag.delivered.filter (·.severity == .warning)).length

end DiagnosticLog

end ScriptMigration
