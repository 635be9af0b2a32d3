import Mathlib.Algebra.Group.Nat.Defs
import Mathlib.Data.List.Induction
import Mathlib.Data.List.Nodup
import ScriptMigration.Cache.Recent
import ScriptMigration.Number.Core

/-! A cache with a clock is a list in which the entry used last stands first, as long as the clock goes. The
times of use are all different and fall along the list, so the entry that was unused for longest is the last
one, in whatever order a table gives its entries. -/
namespace ScriptMigration

structure RecentList (κ ν : Type) where
  room : Nat
  entries : List (κ × ν) := []
  /-- How often a value was asked for or given, also by a call that does one after the other. -/
  uses : Nat := 0
  hits : Nat := 0
  misses : Nat := 0

inductive CacheCall (κ ν : Type) where
  | get (key : κ)
  | insert (key : κ) (value : ν)
  | getOrInsert (key : κ) (value : Unit → ν)
  | clear

inductive CacheAnswer (ν : Type) where
  | found (value : Option ν)
  | given (value : ν) (computed : Bool)
  | done

/-- Whether a value was not found and made for the answer. -/
def CacheAnswer.isComputed {ν : Type} : CacheAnswer ν → Bool
  | .given _ computed => computed
  | _ => false

def CacheCall.run {κ ν σ : Type} (answer : σ → CacheCall κ ν → CacheAnswer ν × σ) :
    σ → List (CacheCall κ ν) → List (CacheAnswer ν) × σ
  | state, [] => ([], state)
  | state, call :: rest =>
    let (first, state) := answer state call
    let (answers, state) := run answer state rest
    (first :: answers, state)

variable {κ ν : Type} [DecidableEq κ]

namespace RecentList

def withCapacity (capacity : Nat) : RecentList κ ν := { room := max capacity 1 }

def inFront (entries : List (κ × ν)) (key : κ) (value : ν) : List (κ × ν) :=
  (key, value) :: entries.filter (·.1 ≠ key)

def get (list : RecentList κ ν) (key : κ) : Option ν × RecentList κ ν :=
  match list.entries.lookup key with
  | some value => (some value, { list with
      entries := inFront list.entries key value, uses := list.uses + 1, hits := list.hits + 1 })
  | none => (none, { list with uses := list.uses + 1, misses := list.misses + 1 })

def insert (list : RecentList κ ν) (key : κ) (value : ν) : RecentList κ ν :=
  { list with entries := (inFront list.entries key value).take list.room, uses := list.uses + 1 }

def answer (list : RecentList κ ν) : CacheCall κ ν → CacheAnswer ν × RecentList κ ν
  | .get key => ((.found (list.get key).1), (list.get key).2)
  | .insert key value => (.done, list.insert key value)
  | .getOrInsert key value =>
    match list.get key with
    | (some found, list) => (.given found false, list)
    | (none, list) => (.given (value ()) true, list.insert key (value ()))
  | .clear => (.done, { list with entries := [] })

section Uses

variable (list : RecentList κ ν) (key : κ)

@[simp] theorem uses_get : (list.get key).2.uses = list.uses + 1 := by
  unfold get
  split <;> rfl

@[simp] theorem uses_insert (value : ν) : (list.insert key value).uses = list.uses + 1 := rfl

theorem uses_getOrInsert (value : Unit → ν) :
    (list.get key).2.uses ≤ (list.answer (.getOrInsert key value)).2.uses ∧
      (list.answer (.getOrInsert key value)).2.uses = list.uses + 1 +
        (list.answer (.getOrInsert key value)).1.isComputed.toNat := by
  rw [uses_get]
  have counted := list.uses_get key
  unfold answer
  dsimp only
  split <;> rename_i answered <;> rw [answered] at counted
  · exact ⟨Nat.le_of_eq counted.symm, counted⟩
  · simp only [uses_insert, CacheAnswer.isComputed, Bool.toNat_true] at *
    omega

/-- A call uses the list once, and once more if it makes the value that it answers. -/
theorem uses_answer (call : CacheCall κ ν) :
    list.uses ≤ (list.answer call).2.uses ∧
      (list.answer call).2.uses ≤ list.uses + 1 + (list.answer call).1.isComputed.toNat := by
  cases call with
  | getOrInsert key value =>
    obtain ⟨least, most⟩ := list.uses_getOrInsert key value
    rw [uses_get] at least
    exact ⟨Nat.le_of_succ_le least, Nat.le_of_eq most⟩
  | _ => simp [answer, CacheAnswer.isComputed]

theorem uses_run (calls : List (CacheCall κ ν)) :
    list.uses ≤ (CacheCall.run answer list calls).2.uses ∧
      (CacheCall.run answer list calls).2.uses ≤ list.uses + calls.length +
        (CacheCall.run answer list calls).1.countP CacheAnswer.isComputed := by
  induction calls generalizing list with
  | nil => exact ⟨Nat.le_refl _, Nat.le_refl _⟩
  | cons call rest ih =>
    obtain ⟨later, least⟩ := list.uses_answer call
    obtain ⟨last, most⟩ := ih (list.answer call).2
    unfold CacheCall.run
    dsimp only
    rw [List.length_cons, List.countP_cons]
    cases computed : (list.answer call).1.isComputed <;>
      simp only [computed, Bool.toNat_true, Bool.toNat_false, if_true, if_false, Bool.false_eq_true] at *
    · omega
    · omega

end Uses

end RecentList

namespace RecentCache

variable [Hashable κ]

def answer (cache : RecentCache κ ν) : CacheCall κ ν → CacheAnswer ν × RecentCache κ ν
  | .get key => ((.found (cache.get key).1), (cache.get key).2)
  | .insert key value => (.done, cache.insert key value)
  | .getOrInsert key value =>
    (.given (cache.getOrInsert key value).1 (cache.getOrInsert key value).2.1,
      (cache.getOrInsert key value).2.2)
  | .clear => (.done, cache.clear)

def plain (entry : κ × Stamped ν) : κ × ν := (entry.1, entry.2.value)

/-- What can be seen of a cache is what a list has, and the next entry to go is the last one, in
whatever order the table is looked through. No count is above the clock. -/
structure Shows (cache : RecentCache κ ν) (list : RecentList κ ν) : Prop where
  entries : ∀ key value,
    (key, value) ∈ list.entries ↔ cache.entries[key]?.map Stamped.value = some value
  once : (list.entries.map Prod.fst).Nodup
  size : cache.size = list.entries.length
  fits : cache.size ≤ cache.capacity
  hits : cache.hits = list.hits
  misses : cache.misses = list.misses
  counts : cache.hits + cache.misses ≤ cache.clock.toNat
  oldest : ∀ order : List (κ × Stamped ν), order.Perm cache.entries.toList →
    (oldest? order).map plain = list.entries.getLast?

structure Ranks (entries : Std.HashMap κ (Stamped ν)) (clock : UInt64) (ranked : List (κ × Stamped ν)) :
    Prop where
  holds : ∀ key entry, (key, entry) ∈ ranked ↔ entries[key]? = some entry
  falls : ranked.Pairwise fun later earlier => earlier.2.used < later.2.used
  past : ∀ entry ∈ ranked, entry.2.used ≤ clock

/-- A cache has the entries of a list in their order, and counts as the list does. -/
structure Follows (cache : RecentCache κ ν) (list : RecentList κ ν) : Prop where
  goes : cache.stopped = false
  clock : cache.clock.toNat = list.uses
  counts : list.hits + list.misses ≤ list.uses
  room : cache.capacity = list.room
  roomy : 1 ≤ list.room
  fits : list.entries.length ≤ list.room
  hits : cache.hits = list.hits
  misses : cache.misses = list.misses
  ranked : ∃ ranked, Ranks cache.entries cache.clock ranked ∧ list.entries = ranked.map plain

section Oldest

variable {order ranked : List (κ × Stamped ν)} {entry : κ × Stamped ν}

omit [DecidableEq κ] [Hashable κ] in
theorem oldest?_eq_none_iff : oldest? order = none ↔ order = [] := by
  cases order with
  | nil => exact ⟨fun _ => rfl, fun _ => rfl⟩
  | cons entry rest =>
    refine ⟨fun isNone => ?_, fun absurd => nomatch absurd⟩
    unfold oldest? at isNone
    split at isNone
    · exact nomatch isNone
    · split at isNone <;> exact nomatch isNone

omit [DecidableEq κ] [Hashable κ] in
theorem oldest?_least (found : oldest? order = some entry) :
    entry ∈ order ∧ ∀ other ∈ order, entry.2.used ≤ other.2.used := by
  induction order generalizing entry with
  | nil => exact nomatch found
  | cons first rest ih =>
    unfold oldest? at found
    cases oldest : oldest? rest with
    | none =>
      rw [oldest] at found
      obtain rfl := Option.some.inj found
      rw [oldest?_eq_none_iff.1 oldest]
      simp
    | some last =>
      obtain ⟨among, least⟩ := ih oldest
      simp only [oldest] at found
      split at found
      · rename_i sooner
        obtain rfl := Option.some.inj found
        refine ⟨List.mem_cons_self, fun other listed => ?_⟩
        rcases List.mem_cons.1 listed with rfl | later
        · exact UInt64.le_refl _
        · exact UInt64.le_trans sooner (least other later)
      · rename_i later
        obtain rfl := Option.some.inj found
        refine ⟨List.mem_cons_of_mem _ among, fun other listed => ?_⟩
        rcases List.mem_cons.1 listed with rfl | listed
        · exact UInt64.le_of_lt (UInt64.not_le.1 later)
        · exact least other listed

omit [DecidableEq κ] [Hashable κ] in
/-- Of entries with falling times the last one is the oldest, in whatever order they are looked
through. -/
theorem oldest?_of_falls (falls : ranked.Pairwise fun later earlier => earlier.2.used < later.2.used)
    (same : ∀ entry, entry ∈ order ↔ entry ∈ ranked) : oldest? order = ranked.getLast? := by
  cases ranked using List.reverseRecOn with
  | nil =>
    rw [List.eq_nil_iff_forall_not_mem.2 fun entry listed => nomatch (same entry).1 listed]
    rfl
  | append_singleton init last =>
    rw [List.getLast?_concat]
    have before := (List.pairwise_append.1 falls).2.2
    cases oldest : oldest? order with
    | none =>
      have listed := (same last).2 (List.mem_append_right _ List.mem_cons_self)
      rw [oldest?_eq_none_iff.1 oldest] at listed
      exact nomatch listed
    | some entry =>
      obtain ⟨among, least⟩ := oldest?_least oldest
      have sooner := least last ((same last).2 (List.mem_append_right _ List.mem_cons_self))
      rcases List.mem_append.1 ((same entry).1 among) with early | isLast
      · exact absurd (before entry early last List.mem_cons_self) (UInt64.not_lt.2 sooner)
      · rw [List.mem_singleton.1 isLast]

end Oldest

namespace Ranks

variable {entries : Std.HashMap κ (Stamped ν)} {clock : UInt64} {ranked init : List (κ × Stamped ν)}
  {entry last : κ × Stamped ν} {key : κ}

theorem eq_of_key (ranks : Ranks entries clock ranked) (listed : entry ∈ ranked) (listed' : last ∈ ranked)
    (same : entry.1 = last.1) : entry = last := by
  have found := (ranks.holds entry.1 entry.2).1 listed
  rw [same, (ranks.holds last.1 last.2).1 listed'] at found
  exact Prod.ext same (Option.some.inj found).symm

theorem nodup (ranks : Ranks entries clock ranked) : ranked.Nodup := by
  refine List.Pairwise.imp (fun falls same => ?_) ranks.falls
  rw [same] at falls
  exact UInt64.lt_irrefl _ falls

theorem nodup_keys (ranks : Ranks entries clock ranked) : (ranked.map Prod.fst).Nodup :=
  ranks.nodup.map_on fun _ listed _ listed' same => ranks.eq_of_key listed listed' same

theorem perm (ranks : Ranks entries clock ranked) : ranked.Perm entries.toList := by
  have once : entries.toList.Nodup := Std.HashMap.distinct_keys_toList.imp fun differs same => by
    rw [same] at differs
    simp at differs
  refine (List.perm_ext_iff_of_nodup ranks.nodup once).2 fun ⟨key, entry⟩ => ?_
  rw [ranks.holds, Std.HashMap.mem_toList_iff_getElem?_eq_some]

theorem length_eq (ranks : Ranks entries clock ranked) : ranked.length = entries.size :=
  ranks.perm.length_eq.trans Std.HashMap.length_toList

theorem lookup_eq (ranks : Ranks entries clock ranked) (key : κ) :
    (ranked.map plain).lookup key = entries[key]?.map Stamped.value := by
  cases found : entries[key]? with
  | none =>
    rw [Option.map_none, List.lookup_eq_none_iff]
    intro other listed
    obtain ⟨entry, among, rfl⟩ := List.mem_map.1 listed
    refine bne_iff_ne.2 fun same => ?_
    have held := (ranks.holds entry.1 entry.2).1 among
    rw [← show key = entry.1 from same, found] at held
    exact nomatch held
  | some entry =>
    have listed := (ranks.holds key entry).2 found
    obtain ⟨before, after, rfl, absent⟩ := List.eq_append_cons_of_mem listed
    rw [Option.map_some, List.lookup_eq_some_iff]
    refine ⟨before.map plain, after.map plain, List.map_append, fun other among => ?_⟩
    obtain ⟨earlier, isEarlier, rfl⟩ := List.mem_map.1 among
    refine bne_iff_ne.2 fun same => absent ?_
    rw [← ranks.eq_of_key (List.mem_append_left _ isEarlier) listed same.symm]
    exact isEarlier

theorem later (ranks : Ranks entries clock ranked) {now : UInt64} (late : clock < now) :
    Ranks entries now ranked :=
  ⟨ranks.holds, ranks.falls, fun entry listed =>
    UInt64.le_trans (ranks.past entry listed) (UInt64.le_of_lt late)⟩

theorem use (ranks : Ranks entries clock ranked) {now : UInt64} (late : clock < now) (key : κ) (value : ν) :
    Ranks (entries.insert key ⟨value, now⟩) now ((key, ⟨value, now⟩) :: ranked.filter (·.1 ≠ key)) := by
  refine ⟨fun other entry => ?_, ?_, fun entry listed => ?_⟩
  · rw [Std.HashMap.getElem?_insert, List.mem_cons, List.mem_filter, ranks.holds]
    by_cases same : key = other
    · subst same
      simp [eq_comm]
    · simp [same, Ne.symm same]
  · refine List.pairwise_cons.2 ⟨fun entry listed => ?_, ranks.falls.filter _⟩
    exact UInt64.lt_of_le_of_lt (ranks.past entry (List.mem_of_mem_filter listed)) late
  · rcases List.mem_cons.1 listed with rfl | older
    · exact UInt64.le_refl _
    · exact (ranks.later late).past entry (List.mem_of_mem_filter older)

theorem dropLast (ranks : Ranks entries clock (init ++ [last])) :
    Ranks (entries.erase last.1) clock init := by
  obtain ⟨falls, _, before⟩ := List.pairwise_append.1 ranks.falls
  refine ⟨fun key entry => ?_, falls, fun entry listed =>
    ranks.past entry (List.mem_append_left _ listed)⟩
  rw [Std.HashMap.getElem?_erase]
  constructor
  · intro listed
    have among := List.mem_append_left [last] listed
    have differs : last.1 ≠ key := by
      rintro rfl
      have isLast := ranks.eq_of_key among (List.mem_append_right _ List.mem_cons_self) rfl
      exact UInt64.lt_irrefl _ (isLast ▸ before _ listed last List.mem_cons_self)
    rw [if_neg (by simpa using differs)]
    exact (ranks.holds key entry).1 among
  · intro found
    split at found
    · exact nomatch found
    · rename_i differs
      rcases List.mem_append.1 ((ranks.holds key entry).2 found) with listed | isLast
      · exact listed
      · rw [← List.mem_singleton.1 isLast] at differs
        exact absurd (beq_self_eq_true key) differs

end Ranks

omit [Hashable κ] in
theorem inFront_map (ranked : List (κ × Stamped ν)) (key : κ) (entry : Stamped ν) :
    RecentList.inFront (ranked.map plain) key entry.value =
      ((key, entry) :: ranked.filter (·.1 ≠ key)).map plain := by
  rw [RecentList.inFront, List.filter_map, List.map_cons]
  rfl

namespace Ranks

variable {cache : RecentCache κ ν} {before : UInt64} {ranked : List (κ × Stamped ν)} {key : κ}

theorem length_use (ranks : Ranks cache.entries before ranked) (key : κ) :
    if cache.entries.contains key then (ranked.filter (·.1 ≠ key)).length < ranked.length
    else ranked.filter (·.1 ≠ key) = ranked := by
  rw [Std.HashMap.contains_eq_isSome_getElem?]
  cases found : cache.entries[key]? with
  | none =>
    refine List.filter_eq_self.2 fun entry listed => decide_eq_true fun same => ?_
    have held := (ranks.holds entry.1 entry.2).1 listed
    rw [same, found] at held
    exact nomatch held
  | some entry =>
    exact List.length_filter_lt_length_iff_exists.2
      ⟨(key, entry), (ranks.holds key entry).2 found, by simp⟩

theorem put (ranks : Ranks cache.entries before ranked) (late : before < cache.clock)
    (roomy : 1 ≤ cache.capacity) (fits : ranked.length ≤ cache.capacity) (key : κ) (value : ν) :
    Ranks (cache.put key value).entries cache.clock
      (((key, ⟨value, cache.clock⟩) :: ranked.filter (·.1 ≠ key)).take cache.capacity) := by
  have kept := ranks.length_use key
  unfold RecentCache.put
  dsimp only
  by_cases full : !cache.entries.contains key && decide (cache.capacity ≤ cache.entries.size)
  · rw [if_pos full]
    obtain ⟨new, isFull⟩ := Bool.and_eq_true_iff.1 full
    rw [Bool.not_eq_true'] at new
    rw [new, if_neg Bool.false_ne_true] at kept
    have length : ranked.length = cache.capacity :=
      Nat.le_antisymm fits (ranks.length_eq ▸ of_decide_eq_true isFull)
    have order : oldest? cache.entries.toList = ranked.getLast? :=
      oldest?_of_falls ranks.falls fun entry => ranks.perm.mem_iff.symm
    cases ranked using List.reverseRecOn with
    | nil =>
      rw [← length] at roomy
      exact nomatch roomy
    | append_singleton init last =>
      rw [List.getLast?_concat] at order
      rw [List.length_append, List.length_singleton] at length
      unfold evict
      rw [order, kept, ← length, List.take_succ_cons, List.take_left]
      have used := ranks.dropLast.use late key value
      rwa [List.filter_eq_self.2] at used
      intro entry listed
      exact (List.filter_eq_self.1 kept) entry (List.mem_append_left _ listed)
  · rw [if_neg full]
    have few : ((key, (⟨value, cache.clock⟩ : Stamped ν)) ::
        ranked.filter (·.1 ≠ key)).length ≤ cache.capacity := by
      rw [List.length_cons]
      split at kept
      · omega
      · rename_i new
        rw [kept]
        simp only [new, Bool.not_false, Bool.true_and, decide_eq_true_eq, ← ranks.length_eq] at full
        omega
    rw [List.take_of_length_le few]
    exact ranks.use late key value

end Ranks

section Clock

omit [Hashable κ] [DecidableEq κ] in
theorem add_one_eq_zero_iff {time : UInt64} : time + 1 = 0 ↔ 2 ^ 64 ≤ time.toNat + 1 := by
  have bound := time.toNat_lt
  rw [← UInt64.toNat_inj, UInt64.toNat_add]
  simp only [UInt64.toNat_one, UInt64.toNat_zero]
  omega

variable (cache : RecentCache κ ν)

theorem stopped_tick : cache.tick.stopped ↔ cache.stopped ∨ 2 ^ 64 ≤ cache.clock.toNat + 1 := by
  rw [tick, Bool.or_eq_true, beq_iff_eq, add_one_eq_zero_iff]

theorem stopped_get (key : κ) : (cache.get key).2.stopped = cache.tick.stopped := by
  unfold get
  dsimp only
  split <;> rfl

theorem kept_put (key : κ) (value : ν) : (cache.put key value).stopped = cache.stopped ∧
    (cache.put key value).capacity = cache.capacity ∧ (cache.put key value).hits = cache.hits ∧
      (cache.put key value).misses = cache.misses ∧ (cache.put key value).clock = cache.clock := by
  unfold put evict
  dsimp only
  split
  · split <;> exact ⟨rfl, rfl, rfl, rfl, rfl⟩
  · exact ⟨rfl, rfl, rfl, rfl, rfl⟩

theorem stopped_insert (key : κ) (value : ν) : (cache.insert key value).stopped = cache.tick.stopped :=
  (kept_put cache.tick key value).1

theorem stopped_getOrInsert (key : κ) (value : Unit → ν) (stops : (cache.get key).2.stopped) :
    (cache.getOrInsert key value).2.2.stopped := by
  unfold getOrInsert
  dsimp only
  revert stops
  generalize cache.get key = answered
  obtain ⟨found, later⟩ := answered
  intro stops
  cases found with
  | some found => exact stops
  | none => exact (later.stopped_insert key (value ())).trans (later.stopped_tick.2 (.inl stops))

end Clock

namespace Follows

variable {cache : RecentCache κ ν} {list : RecentList κ ν}

theorem shows (follows : cache.Follows list) : cache.Shows list := by
  obtain ⟨room, entries, uses, hits, misses⟩ := list
  obtain ⟨-, clock, counts, isRoom, roomy, fits, isHits, isMisses, ranked, ranks, rfl⟩ := follows
  dsimp only at *
  have size : cache.size = (ranked.map plain).length := by
    rw [List.length_map, ranks.length_eq, RecentCache.size]
  refine ⟨fun key value => ?_, ?_, size, by omega, isHits, isMisses, by omega, fun order same => ?_⟩
  · rw [Option.map_eq_some_iff, List.mem_map]
    constructor
    · rintro ⟨entry, listed, same⟩
      obtain ⟨rfl, rfl⟩ := Prod.mk.inj same
      exact ⟨entry.2, (ranks.holds entry.1 entry.2).1 listed, rfl⟩
    · rintro ⟨entry, found, rfl⟩
      exact ⟨(key, entry), (ranks.holds key entry).2 found, rfl⟩
  · rw [List.map_map]
    exact ranks.nodup_keys
  · rw [List.getLast?_map, oldest?_of_falls ranks.falls fun entry => ?_]
    exact same.mem_iff.trans ranks.perm.mem_iff.symm

theorem withCapacity (capacity : Nat) :
    Follows (.withCapacity capacity : RecentCache κ ν) (.withCapacity capacity) where
  goes := rfl
  clock := rfl
  counts := Nat.le_refl _
  room := rfl
  roomy := Nat.le_max_right ..
  fits := Nat.zero_le _
  hits := rfl
  misses := rfl
  ranked := ⟨[], ⟨fun _ _ => by simp [RecentCache.withCapacity], .nil, fun _ listed => nomatch listed⟩, rfl⟩

theorem tick (follows : cache.Follows list) :
    if 2 ^ 64 ≤ list.uses + 1 then cache.tick.stopped = true
    else cache.tick.stopped = false ∧ cache.tick.clock.toNat = list.uses + 1 ∧
      cache.clock < cache.tick.clock := by
  have stops := cache.stopped_tick
  rw [follows.goes, follows.clock] at stops
  split
  · rename_i late
    exact stops.2 (.inr late)
  · rename_i early
    have ticks : cache.tick.clock.toNat = list.uses + 1 := by
      rw [← follows.clock] at early ⊢
      rw [RecentCache.tick, UInt64.toNat_add, UInt64.toNat_one, Nat.mod_eq_of_lt (Nat.not_le.1 early)]
    refine ⟨Bool.eq_false_iff.2 (mt stops.1 (by simpa using early)), ticks, ?_⟩
    rw [UInt64.lt_iff_toNat_lt, ticks, follows.clock]
    exact Nat.lt_succ_self _

theorem get (follows : cache.Follows list) (early : list.uses + 1 < 2 ^ 64) (key : κ) :
    (cache.get key).1 = (list.get key).1 ∧ (cache.get key).2.Follows (list.get key).2 := by
  have ticked := follows.tick
  rw [if_neg (Nat.not_le.2 early)] at ticked
  obtain ⟨goes, clock, late⟩ := ticked
  obtain ⟨room, entries, uses, hits, misses⟩ := list
  obtain ⟨-, -, counts, isRoom, roomy, fits, isHits, isMisses, ranked, ranks, rfl⟩ := follows
  unfold RecentCache.get RecentList.get
  dsimp only at *
  rw [ranks.lookup_eq key]
  have table : cache.tick.entries = cache.entries := rfl
  rw [table]
  cases found : cache.entries[key]? with
  | none =>
    exact ⟨rfl, goes, clock, Nat.succ_le_succ counts, isRoom, roomy, fits, isHits,
      congrArg (· + 1) isMisses, ranked, ranks.later late, rfl⟩
  | some entry =>
    have shorter := ranks.length_use key
    rw [Std.HashMap.contains_eq_isSome_getElem?, found, Option.isSome_some, if_pos rfl] at shorter
    have used := inFront_map ranked key { entry with used := cache.tick.clock }
    have counted : hits + 1 + misses ≤ uses + 1 := by omega
    refine ⟨rfl, goes, clock, counted, isRoom, roomy, ?_, congrArg (· + 1) isHits, isMisses, _,
      ranks.use late key entry.value, used⟩
    rw [List.length_map] at fits
    rw [Option.map_some]
    dsimp only
    rw [used, List.length_map]
    exact Nat.le_trans shorter fits

theorem insert (follows : cache.Follows list) (early : list.uses + 1 < 2 ^ 64) (key : κ) (value : ν) :
    (cache.insert key value).Follows (list.insert key value) := by
  have ticked := follows.tick
  rw [if_neg (Nat.not_le.2 early)] at ticked
  obtain ⟨goes, clock, late⟩ := ticked
  obtain ⟨room, entries, uses, hits, misses⟩ := list
  obtain ⟨-, -, counts, isRoom, roomy, fits, isHits, isMisses, ranked, ranks, rfl⟩ := follows
  dsimp only at *
  subst isRoom
  rw [List.length_map] at fits
  obtain ⟨kept, capacity, sameHits, sameMisses, time⟩ := kept_put cache.tick key value
  have unchanged : Ranks cache.tick.entries cache.clock ranked := ranks
  have inserted := unchanged.put late roomy fits key value
  rw [← time] at inserted
  refine ⟨kept.trans goes, (congrArg UInt64.toNat time).trans clock, Nat.le_succ_of_le counts, capacity, roomy,
    List.length_take_le .., sameHits.trans isHits, sameMisses.trans isMisses, _, inserted, ?_⟩
  have inFront := inFront_map ranked key ⟨value, (cache.tick.put key value).clock⟩
  exact (congrArg (List.take cache.capacity) inFront).trans List.map_take.symm

end Follows

/-- A cache follows a list, or both have been used more often than the clock counts. -/
inductive Tracks (cache : RecentCache κ ν) (list : RecentList κ ν) : Prop where
  | going (follows : cache.Follows list)
  | stopped (stops : cache.stopped) (late : 2 ^ 64 ≤ list.uses)

namespace Tracks

variable {cache : RecentCache κ ν} {list : RecentList κ ν}

theorem stopped_iff (tracks : cache.Tracks list) : cache.stopped ↔ 2 ^ 64 ≤ list.uses := by
  cases tracks with
  | going follows =>
    have early := cache.clock.toNat_lt
    rw [follows.clock] at early
    rw [follows.goes]
    exact ⟨fun absurd => (Bool.false_ne_true absurd).elim, fun late => absurd late (Nat.not_le.2 early)⟩
  | stopped stops late => exact ⟨fun _ => late, fun _ => stops⟩

theorem follows (tracks : cache.Tracks list) (early : list.uses < 2 ^ 64) : cache.Follows list := by
  cases tracks with
  | going follows => exact follows
  | stopped stops late => exact absurd late (Nat.not_le.2 early)

theorem tick_stopped (tracks : cache.Tracks list) (late : 2 ^ 64 ≤ list.uses + 1) : cache.tick.stopped := by
  cases tracks with
  | going follows =>
    have ticked := follows.tick
    rwa [if_pos late] at ticked
  | stopped stops _ => exact cache.stopped_tick.2 (.inl stops)

theorem get (tracks : cache.Tracks list) (key : κ) : (cache.get key).2.Tracks (list.get key).2 ∧
    ((list.get key).2.uses < 2 ^ 64 → (cache.get key).1 = (list.get key).1) := by
  rw [list.uses_get]
  by_cases late : 2 ^ 64 ≤ list.uses + 1
  · refine ⟨.stopped ?_ (by rwa [list.uses_get]), fun early => absurd late (Nat.not_le.2 early)⟩
    rw [stopped_get]
    exact tracks.tick_stopped late
  · have early := Nat.not_le.1 late
    obtain ⟨same, later⟩ := (tracks.follows (Nat.lt_of_succ_lt early)).get early key
    exact ⟨.going later, fun _ => same⟩

theorem insert (tracks : cache.Tracks list) (key : κ) (value : ν) :
    (cache.insert key value).Tracks (list.insert key value) := by
  by_cases late : 2 ^ 64 ≤ list.uses + 1
  · refine .stopped ?_ late
    rw [stopped_insert]
    exact tracks.tick_stopped late
  · have early := Nat.not_le.1 late
    exact .going ((tracks.follows (Nat.lt_of_succ_lt early)).insert early key value)

theorem clear (tracks : cache.Tracks list) : cache.clear.Tracks { list with entries := [] } := by
  cases tracks with
  | going follows =>
    refine .going { follows with
      fits := Nat.zero_le _
      ranked := ⟨[], ⟨fun _ _ => ?_, .nil, nofun⟩, rfl⟩ }
    simp [RecentCache.clear]
  | stopped stops late => exact .stopped stops late

/-- A cache answers as the list does that it tracks, unless its clock stops. -/
theorem answer (tracks : cache.Tracks list) (call : CacheCall κ ν) :
    (cache.answer call).2.Tracks (list.answer call).2 ∧
      ((list.answer call).2.uses < 2 ^ 64 → (cache.answer call).1 = (list.answer call).1) := by
  cases call with
  | get key =>
    obtain ⟨later, same⟩ := tracks.get key
    exact ⟨later, fun early => congrArg CacheAnswer.found (same early)⟩
  | insert key value => exact ⟨tracks.insert key value, fun _ => rfl⟩
  | getOrInsert key value =>
    obtain ⟨later, same⟩ := tracks.get key
    have stops := cache.stopped_getOrInsert key value
    have least := (list.uses_getOrInsert key value).1
    unfold RecentCache.answer RecentList.answer
    unfold RecentList.answer at least
    unfold getOrInsert at stops ⊢
    dsimp only at *
    revert later same stops least
    generalize cache.get key = answered
    generalize list.get key = expected
    obtain ⟨found, cache'⟩ := answered
    obtain ⟨found', list'⟩ := expected
    intro later same stops least
    by_cases early : list'.uses < 2 ^ 64
    · obtain rfl : found = found' := same early
      cases found with
      | some found => exact ⟨later, fun _ => rfl⟩
      | none => exact ⟨later.insert key (value ()), fun _ => rfl⟩
    · have late := Nat.not_lt.1 early
      have passed := Nat.le_trans late least
      exact ⟨.stopped (stops (later.stopped_iff.2 late)) passed,
        fun early => absurd passed (Nat.not_le.2 early)⟩
  | clear => exact ⟨tracks.clear, fun _ => rfl⟩

theorem run (tracks : cache.Tracks list) (calls : List (CacheCall κ ν)) :
    (CacheCall.run RecentCache.answer cache calls).2.Tracks
        (CacheCall.run RecentList.answer list calls).2 ∧
      ((CacheCall.run RecentList.answer list calls).2.uses < 2 ^ 64 →
        (CacheCall.run RecentCache.answer cache calls).1 =
          (CacheCall.run RecentList.answer list calls).1) := by
  induction calls generalizing cache list with
  | nil => exact ⟨tracks, fun _ => rfl⟩
  | cons call rest ih =>
    obtain ⟨later, same⟩ := tracks.answer call
    obtain ⟨last, rests⟩ := ih later
    refine ⟨last, fun early => ?_⟩
    have started := Nat.lt_of_le_of_lt ((list.answer call).2.uses_run rest).1 early
    unfold CacheCall.run at early ⊢
    dsimp only at *
    rw [same started, rests early]

end Tracks

end RecentCache

end ScriptMigration
