import ScriptMigration.Proofs.Cache.Recent
import ScriptMigration.Proofs.Migration.Run
import ScriptMigration.Proofs.Resolution.Cacheless

/-! How many members of external types are kept makes no difference to a migration. A cache of any size
is a list of what was used last, and what it gives is always what the symbol table says. -/
namespace ScriptMigration

namespace MigrationRun

variable {symbols : SymbolTable} {options : MigrationOptions} {run other : MigrationRun}

/-- Migrations that differ at most in their caches, which hold what the symbol table says. -/
structure Alike (symbols : SymbolTable) (run other : MigrationRun) : Prop where
  left : run.cache.Faithful symbols
  right : other.cache.Faithful symbols
  same : other = { run with cache := other.cache }

theorem Alike.resolve (alike : Alike symbols run other) (options : MigrationOptions) (room : Nat)
    (id : ScriptId) : Alike symbols (run.resolve symbols options id)
      (other.resolve symbols { options with memberCacheCapacity := room } id) := by
  obtain ⟨left, right, same⟩ := alike
  obtain ⟨left', right', resolved⟩ := run.store.resolve_alike symbols options room id left right
  rw [same]
  refine ⟨left', right', ?_⟩
  unfold MigrationRun.resolve
  dsimp only
  rw [resolved]

theorem Alike.resolveAll (alike : Alike symbols run other) (options : MigrationOptions) (room : Nat)
    (interrupt : Interrupt) (ids : List ScriptId) :
    (other.resolveAll symbols { options with memberCacheCapacity := room } interrupt ids).1 =
        (run.resolveAll symbols options interrupt ids).1 ∧
      Alike symbols (run.resolveAll symbols options interrupt ids).2
        (other.resolveAll symbols { options with memberCacheCapacity := room } interrupt ids).2 := by
  induction ids generalizing run other with
  | nil => exact ⟨rfl, alike⟩
  | cons id rest ih =>
    have progress : other.progress = run.progress := by rw [alike.same]
    unfold MigrationRun.resolveAll
    rw [progress]
    split
    · exact ⟨rfl, alike⟩
    · exact ih (alike.resolve options room id)

end MigrationRun

namespace Migrator

variable (migrator : Migrator) (room : Nat)

def withRoom : Migrator :=
  { migrator with options := { migrator.options with memberCacheCapacity := room } }

end Migrator

end ScriptMigration
