import ScriptMigration.Cache.Weak
import ScriptMigration.Grammar.Module
import ScriptMigration.Text.Digest

/-! A cache of parsed modules. A module is found by its name and a digest of its text, as long as
something outside the cache holds it. -/
namespace ScriptMigration

/-- A module as it was parsed, with the number of the parse. Two parses of one text have different
numbers. -/
structure ParsedModule where
  ticket : Nat
  module : Module

structure ModuleCache where
  modules : WeakCache (String × UInt64) ParsedModule := .empty
  hits : Nat := 0
  misses : Nat := 0

namespace ModuleCache

abbrev Holding := Nat → Bool

/-- The parse of a text under the name of its module. One that is held is used again. -/
def parse (cache : ModuleCache) (held : Holding) (text name : String) :
    Except (List SyntaxFault) ParsedModule × ModuleCache :=
  let key := (name, Digest.ofText text)
  match cache.modules.get (held ·.ticket) key with
  | (some parsed, modules) => (.ok parsed, { cache with modules, hits := cache.hits + 1 })
  | (none, modules) =>
    let ticket := cache.misses
    let cache := { cache with modules, misses := cache.misses + 1 }
    match parseModule text name with
    | .error faults => (.error faults, cache)
    | .ok module =>
      let parsed : ParsedModule := { ticket, module }
      let holds (other : ParsedModule) : Bool := held other.ticket || other.ticket == ticket
      (.ok parsed, { cache with modules := cache.modules.insert holds key parsed })

def liveCount (cache : ModuleCache) (held : Holding) : Nat :=
  cache.modules.liveCount (held ·.ticket)

end ModuleCache

end ScriptMigration
