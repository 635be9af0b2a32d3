import ScriptMigration.Migration.Migrate

/-! A session: one migrator whose results are kept under names. The parses of the scripts that are
kept can be used again. Once cancelled, a session starts no step until it is reset. -/
namespace ScriptMigration

structure MigrationSession where
  migrator : Migrator
  cancelled : Bool := false
  kept : List (String × Migration) := []

namespace MigrationSession

def holds (session : MigrationSession) (ticket : Nat) : Bool :=
  session.kept.any (·.2.scripts.any (·.source.ticket == ticket))

/-- A run stops where the session is cancelled or the caller asks for it. -/
def interrupt (session : MigrationSession) (stop : Interrupt) : Interrupt := fun progress =>
  session.cancelled || stop progress

/-- The session after a run. It stays cancelled if the run was told to stop at any time. -/
def after {α : Type} (session : MigrationSession) (stop : Interrupt) (report : MigrationReport α) :
    MigrationSession :=
  { session with
    migrator := { session.migrator with cache := report.cache }
    cancelled := session.interrupt stop report.progress }

def migrate (session : MigrationSession) (stop : Interrupt) (inputs : List BatchEntry)
    (source : ScriptSource) : MigrationReport Migration × MigrationSession :=
  let report :=
    session.migrator.migrate (session.interrupt stop) session.holds inputs source
  (report, session.after stop report)

def migrateOne (session : MigrationSession) (stop : Interrupt) (input : BatchEntry)
    (source : ScriptSource) : MigrationReport ScriptResult × MigrationSession :=
  let report :=
    session.migrator.migrateOne (session.interrupt stop) session.holds input source
  (report, session.after stop report)

def keep (session : MigrationSession) (name : String) (migration : Migration) :
    MigrationSession :=
  { session with kept := (name, migration) :: session.kept.filter (·.1 != name) }

def drop (session : MigrationSession) (name : String) : Bool × MigrationSession :=
  (session.kept.any (·.1 == name), { session with kept := session.kept.filter (·.1 != name) })

def get (session : MigrationSession) (name : String) (key : ScriptKey) :
    Except MigrationFailure ScriptResult :=
  match session.kept.find? (·.1 == name) with
  | some (_, migration) => migration.get key
  | none => .error (.unknownScript key)

end MigrationSession

end ScriptMigration
