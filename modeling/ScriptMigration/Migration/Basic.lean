import ScriptMigration.Include.Link
import ScriptMigration.Migration.ModuleCache
import ScriptMigration.Output.Imports
import ScriptMigration.Output.Resources
import ScriptMigration.Reshape.ReturnValue
import ScriptMigration.Resolution.Resolve

/-! What goes into a migration and what comes out of it. -/
namespace ScriptMigration

structure BatchEntry where
  key : ScriptKey
  plugin : Plugin := .script
  text : String
  form : Option HostForm := none

/-- Everything that is made of one script. -/
structure ScriptResult where
  /-- The number of the script in its batch, by which notes refer to it. -/
  id : ScriptId
  key : ScriptKey
  plugin : Plugin
  draft : Draft
  /-- The module as it was parsed. -/
  source : ParsedModule
  /-- The scripts that it includes, directly or through others. -/
  dependencies : List ScriptKey
  isStatic : Bool
  resolution : ResolutionOutcome
  returns : ReturnCounts
  imports : Imports
  assemblies : List Assembly
  resources : ResourceTable

inductive MigrationStep where
  | link | reshaping | resolution | finishing | output
deriving DecidableEq, Repr

def MigrationStep.text : MigrationStep → String
  | link => "link"
  | reshaping => "pre-resolution passes"
  | resolution => "resolution"
  | finishing => "post-resolution passes"
  | output => "output"

inductive MigrationFailure where
  | unreadable (faults : List SyntaxFault)
  | cancelled (step : MigrationStep)
  | unknownScript (key : ScriptKey)
deriving DecidableEq, Repr

def MigrationFailure.message : MigrationFailure → String
  | unreadable faults => SyntaxFault.renderAll faults
  | cancelled step => s!"migration cancelled before {step.text}"
  | unknownScript key => s!"unknown script '{key.render}'"

structure Migration where
  /-- The migrated scripts, each after what it includes. -/
  scripts : List ScriptResult := []
  /-- The scripts that could not be read. -/
  failed : List (ScriptKey × List SyntaxFault) := []

namespace Migration

def get (migration : Migration) (key : ScriptKey) : Except MigrationFailure ScriptResult :=
  match migration.scripts.find? (·.key.same key) with
  | some script => .ok script
  | none => .error (.unknownScript key)

def take (migration : Migration) (key : ScriptKey) : Except MigrationFailure ScriptResult :=
  match migration.failed.find? (·.1.same key) with
  | some (_, faults) => .error (.unreadable faults)
  | none => migration.get key

end Migration

/-- How far a migration has come: how many steps it was let begin, each script that is resolved being a
step, which scripts it asked for and what it reported. -/
structure MigrationProgress where
  begun : Nat := 0
  asked : List ScriptKey := []
  diagnostics : List Diagnostic := []

def MigrationProgress.beginStep (progress : MigrationProgress) : MigrationProgress :=
  { progress with begun := progress.begun + 1 }

/-- Whether a migration is to stop before the next step. -/
abbrev Interrupt := MigrationProgress → Bool

end ScriptMigration
