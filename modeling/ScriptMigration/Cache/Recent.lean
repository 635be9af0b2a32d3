import Std.Data.HashMap

/-! A cache that keeps the values used last. Every entry carries the time of its last use, and when
room is needed the entry unused for longest goes. -/
namespace ScriptMigration

/-- A value and the time of its last use. -/
structure Stamped (ν : Type) where
  value : ν
  used : UInt64
deriving Repr

structure RecentCache (κ ν : Type) [BEq κ] [Hashable κ] where
  capacity : Nat
  entries : Std.HashMap κ (Stamped ν) := {}
  /-- The number of uses so far. -/
  clock : UInt64 := 0
  /-- The clock has run past its greatest time. The program stops there: nothing that is read of the cache
  after that counts. -/
  stopped : Bool := false
  hits : Nat := 0
  misses : Nat := 0

namespace RecentCache

variable {κ ν : Type} [BEq κ] [Hashable κ]

def withCapacity (capacity : Nat) : RecentCache κ ν := { capacity := max capacity 1 }

def tick (cache : RecentCache κ ν) : RecentCache κ ν :=
  let now := cache.clock + 1
  { cache with clock := now, stopped := cache.stopped || now == 0 }

def get (cache : RecentCache κ ν) (key : κ) : Option ν × RecentCache κ ν :=
  let cache := cache.tick
  match cache.entries[key]? with
  | some entry =>
    (some entry.value, { cache with
      entries := cache.entries.insert key { entry with used := cache.clock }
      hits := cache.hits + 1 })
  | none => (none, { cache with misses := cache.misses + 1 })

def oldest? : List (κ × Stamped ν) → Option (κ × Stamped ν)
  | [] => none
  | entry :: rest =>
    match oldest? rest with
    | none => some entry
    | some other => if entry.2.used ≤ other.2.used then some entry else some other

def evict (cache : RecentCache κ ν) : RecentCache κ ν :=
  match oldest? cache.entries.toList with
  | some entry => { cache with entries := cache.entries.erase entry.1 }
  | none => cache

def put (cache : RecentCache κ ν) (key : κ) (value : ν) : RecentCache κ ν :=
  let roomy :=
    if !cache.entries.contains key && cache.capacity ≤ cache.entries.size then cache.evict
    else cache
  { roomy with entries := roomy.entries.insert key ⟨value, cache.clock⟩ }

def insert (cache : RecentCache κ ν) (key : κ) (value : ν) : RecentCache κ ν :=
  cache.tick.put key value

/-- The value of a key, which is computed and kept where there is none, and whether it was. -/
def getOrInsert (cache : RecentCache κ ν) (key : κ) (value : Unit → ν) :
    ν × Bool × RecentCache κ ν :=
  match cache.get key with
  | (some found, cache) => (found, false, cache)
  | (none, cache) =>
    let made := value ()
    (made, true, cache.insert key made)

def clear (cache : RecentCache κ ν) : RecentCache κ ν := { cache with entries := {} }

def size (cache : RecentCache κ ν) : Nat := cache.entries.size

end RecentCache

end ScriptMigration
