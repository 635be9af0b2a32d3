/-! A cache that does not keep its values alive. Whether a value is alive is known only outside, so
every operation that has to know is told by `alive`. Entries of dead values are dropped now and
then, so that their number stays below twice the number left after the last time. -/
namespace ScriptMigration

structure WeakCache (κ ν : Type) where
  entries : List (κ × ν) := []
  /-- The number of entries after the last sweep, at least `WeakCache.leastMark`. -/
  mark : Nat
  /-- Whether a dead value was looked up since the last sweep. -/
  deadSeen : Bool := false
  sweeps : Nat := 0

namespace WeakCache

variable {κ ν : Type}

def leastMark : Nat := 8

def empty : WeakCache κ ν := { mark := leastMark }

def sweep (cache : WeakCache κ ν) (alive : ν → Bool) : WeakCache κ ν :=
  let entries := cache.entries.filter (alive ·.2)
  { entries, mark := max entries.length leastMark, deadSeen := false, sweeps := cache.sweeps + 1 }

def size (cache : WeakCache κ ν) : Nat := cache.entries.length

def liveCount (cache : WeakCache κ ν) (alive : ν → Bool) : Nat :=
  (cache.entries.filter (alive ·.2)).length

variable [BEq κ]

def get (cache : WeakCache κ ν) (alive : ν → Bool) (key : κ) : Option ν × WeakCache κ ν :=
  match cache.entries.find? (·.1 == key) with
  | none => (none, cache)
  | some entry =>
    if alive entry.2 then (some entry.2, cache) else (none, { cache with deadSeen := true })

/-- Gives a key a value, and sweeps when there are too many entries, or more than after the last
sweep and one of them is known to be dead. -/
def insert (cache : WeakCache κ ν) (alive : ν → Bool) (key : κ) (value : ν) : WeakCache κ ν :=
  let cache := { cache with entries := (key, value) :: cache.entries.filter (!·.1 == key) }
  if (cache.mark < cache.size && cache.deadSeen) || cache.mark * 2 ≤ cache.size then
    cache.sweep alive
  else cache

end WeakCache

end ScriptMigration
