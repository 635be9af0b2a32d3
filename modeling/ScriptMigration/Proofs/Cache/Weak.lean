import Mathlib.Data.List.Infix
import ScriptMigration.Cache.Weak
import ScriptMigration.Proofs.List.Repeats

/-! A cache that does not keep its values alive answers like a table that never forgets: a key has the
value that it was given last, as long as that is alive. When entries of dead values are dropped cannot
be told from the answers. -/
namespace ScriptMigration

/-- What happens to a cache and to the values that it was given. Values are told apart like the objects
that they are, so one that is dead never comes back. -/
inductive WeakEvent (κ ν : Type) where
  | insert (key : κ) (value : ν)
  | get (key : κ)
  | sweep
  /-- The value loses its last owner. -/
  | dies (value : ν)
deriving DecidableEq

structure WeakWorld (κ ν : Type) where
  cache : WeakCache κ ν := .empty
  dead : List ν := []

variable {κ ν : Type} [DecidableEq κ]

namespace WeakEvent

variable {history : List (WeakEvent κ ν)} {event : WeakEvent κ ν} {key : κ}

def key? : WeakEvent κ ν → Option κ
  | insert key _ => some key
  | _ => none

def given? (key : κ) : WeakEvent κ ν → Option ν
  | insert other value => if key = other then some value else none
  | _ => none

def isSweep : WeakEvent κ ν → Bool
  | sweep => true
  | _ => false

def lastGiven (history : List (WeakEvent κ ν)) (key : κ) : Option ν :=
  history.reverse.findSome? (given? key)

def livingKeys [DecidableEq ν] (history : List (WeakEvent κ ν)) : List κ :=
  (history.filterMap key?).eraseDups.filter fun key =>
    (lastGiven history key).any fun value => dies value ∉ history

def place (event : WeakEvent κ ν) (entries : List (κ × ν)) : List (κ × ν) :=
  match event with
  | insert key value => (key, value) :: entries.filter (!·.1 == key)
  | _ => entries

theorem lastGiven_concat (history : List (WeakEvent κ ν)) (event : WeakEvent κ ν) (key : κ) :
    lastGiven (history ++ [event]) key = (event.given? key).or (lastGiven history key) := by
  rw [lastGiven, List.reverse_append, List.reverse_singleton, List.singleton_append,
    List.findSome?_cons]
  cases event.given? key <;> rfl

theorem given?_eq_none (unplaced : event.key? = none) : event.given? key = none := by
  cases event <;> first | rfl | exact nomatch unplaced

theorem place_of_key?_none (unplaced : event.key? = none) (entries : List (κ × ν)) :
    event.place entries = entries := by
  cases event <;> first | rfl | exact nomatch unplaced

theorem lastGiven_isSome_iff : (lastGiven history key).isSome ↔ key ∈ history.filterMap key? := by
  induction history using List.reverseRecOn with
  | nil => simp [lastGiven]
  | append_singleton past event ih =>
    rw [lastGiven_concat, Option.isSome_or, Bool.or_eq_true, ih, List.filterMap_append,
      List.mem_append, or_comm]
    refine or_congr_right ?_
    cases event with
    | insert other value => by_cases same : key = other <;> simp [given?, key?, same]
    | get | sweep | dies => simp [given?, key?]

theorem mem_livingKeys [DecidableEq ν] : key ∈ livingKeys history ↔
    ∃ value, lastGiven history key = some value ∧ dies value ∉ history := by
  rw [livingKeys, List.mem_filter, List.mem_eraseDups, ← lastGiven_isSome_iff]
  cases lastGiven history key <;> simp

structure Remembers (entries : List (κ × ν)) (history : List (WeakEvent κ ν)) : Prop where
  once : (entries.map Prod.fst).Nodup
  given : ∀ entry ∈ entries, lastGiven history entry.1 = some entry.2
  holds : ∀ key value, lastGiven history key = some value → dies value ∉ history →
    (key, value) ∈ entries

namespace Remembers

variable {entries : List (κ × ν)}

theorem place (remembers : Remembers entries history) (event : WeakEvent κ ν) :
    Remembers (event.place entries) (history ++ [event]) := by
  have before {value : ν} (alive : dies value ∉ history ++ [event]) : dies value ∉ history :=
    fun dead => alive (List.mem_append_left _ dead)
  cases isPlaced : event.key? with
  | none =>
    have same (key : κ) : lastGiven (history ++ [event]) key = lastGiven history key := by
      rw [lastGiven_concat, given?_eq_none isPlaced, Option.none_or]
    rw [place_of_key?_none isPlaced]
    refine ⟨remembers.once, fun entry listed => ?_, fun key value last alive => ?_⟩
    · rw [same]
      exact remembers.given entry listed
    · rw [same] at last
      exact remembers.holds key value last (before alive)
  | some _ =>
    obtain ⟨placed, value, rfl⟩ : ∃ key value, event = .insert key value := by
      cases event <;> first | exact ⟨_, _, rfl⟩ | exact nomatch isPlaced
    have here : lastGiven (history ++ [.insert placed value]) placed = some value := by
      rw [lastGiven_concat, given?, if_pos rfl, Option.some_or]
    have elsewhere {key : κ} (differs : key ≠ placed) :
        lastGiven (history ++ [.insert placed value]) key = lastGiven history key := by
      rw [lastGiven_concat, given?, if_neg differs, Option.none_or]
    have kept {entry : κ × ν} : entry ∈ entries.filter (!·.1 == placed) ↔
        entry ∈ entries ∧ entry.1 ≠ placed := by simp
    refine ⟨List.nodup_cons.2 ⟨fun listed => ?_, ?_⟩, fun entry listed => ?_,
      fun key other last alive => ?_⟩
    · obtain ⟨entry, among, same⟩ := List.mem_map.1 listed
      exact (kept.1 among).2 same
    · exact remembers.once.sublist (List.filter_sublist.map _)
    · rcases List.mem_cons.1 listed with rfl | among
      · exact here
      · obtain ⟨listed, differs⟩ := kept.1 among
        rw [elsewhere differs]
        exact remembers.given entry listed
    · by_cases same : key = placed
      · rw [same, here] at last
        rw [same, Option.some.inj last]
        exact List.mem_cons_self
      · rw [elsewhere same] at last
        exact List.mem_cons_of_mem _ (kept.2 ⟨remembers.holds key other last (before alive), same⟩)

theorem filter (remembers : Remembers entries history) {alive : ν → Bool}
    (lives : ∀ value, alive value ↔ dies value ∉ history) :
    Remembers (entries.filter (alive ·.2)) history := by
  refine ⟨remembers.once.sublist (List.filter_sublist.map _), fun entry listed => ?_,
    fun key value last isAlive => ?_⟩
  · exact remembers.given entry (List.mem_of_mem_filter listed)
  · exact List.mem_filter.2 ⟨remembers.holds key value last isAlive, (lives value).2 isAlive⟩

theorem length_filter [DecidableEq ν] (remembers : Remembers entries history) {alive : ν → Bool}
    (lives : ∀ value, alive value ↔ dies value ∉ history) :
    (entries.filter (alive ·.2)).length = (livingKeys history).length := by
  have kept := remembers.filter lives
  have once : (livingKeys history).Nodup := (eraseDups_nodup _).filter _
  have same : ((entries.filter (alive ·.2)).map Prod.fst).Perm (livingKeys history) := by
    refine (List.perm_ext_iff_of_nodup kept.once once).2 fun key => ?_
    rw [mem_livingKeys, List.mem_map]
    constructor
    · rintro ⟨entry, listed, rfl⟩
      exact ⟨entry.2, kept.given entry listed, (lives entry.2).1 (List.mem_filter.1 listed).2⟩
    · rintro ⟨value, last, isAlive⟩
      exact ⟨(key, value), kept.holds key value last isAlive, rfl⟩
  rw [← same.length_eq, List.length_map]

end Remembers

end WeakEvent

namespace WeakCache

open WeakEvent

variable {cache : WeakCache κ ν} {history : List (WeakEvent κ ν)} {alive : ν → Bool} {key : κ}
  {value : ν}

theorem get_eq_some (remembers : Remembers cache.entries history)
    (lives : ∀ value, alive value ↔ dies value ∉ history) :
    (cache.get alive key).1 = some value ↔
      lastGiven history key = some value ∧ dies value ∉ history := by
  unfold get
  cases found : cache.entries.find? (·.1 == key) with
  | none =>
    refine iff_of_false (nomatch ·) fun ⟨last, isAlive⟩ => ?_
    have listed := remembers.holds key value last isAlive
    exact absurd (beq_self_eq_true key) (List.find?_eq_none.1 found _ listed)
  | some entry =>
    have isKey : entry.1 = key := by simpa using List.find?_some found
    have given := remembers.given entry (List.mem_of_find?_eq_some found)
    rw [isKey] at given
    rw [given, Option.some_inj, ← lives]
    dsimp only
    by_cases isAlive : alive entry.2
    · rw [if_pos isAlive, Option.some_inj]
      exact ⟨fun same => ⟨same, same ▸ isAlive⟩, And.left⟩
    · rw [if_neg isAlive]
      exact iff_of_false (nomatch ·) fun ⟨same, isAlive'⟩ => isAlive (same ▸ isAlive')

structure Roomy (cache : WeakCache κ ν) : Prop where
  fits : cache.size < 2 * cache.mark
  least : leastMark ≤ cache.mark

omit [DecidableEq κ] in
theorem roomy_sweep (cache : WeakCache κ ν) (alive : ν → Bool) : (cache.sweep alive).Roomy := by
  have few : (cache.sweep alive).size ≤ (cache.sweep alive).mark := Nat.le_max_left ..
  have least : leastMark ≤ (cache.sweep alive).mark := Nat.le_max_right ..
  refine ⟨?_, least⟩
  unfold leastMark at least
  omega

end WeakCache

variable [DecidableEq ν]

namespace WeakWorld

open WeakEvent

variable {world : WeakWorld κ ν} {history : List (WeakEvent κ ν)} {event : WeakEvent κ ν} {value : ν}

def alive (world : WeakWorld κ ν) (value : ν) : Bool := value ∉ world.dead

def next (world : WeakWorld κ ν) : WeakEvent κ ν → WeakWorld κ ν
  | .insert key value => { world with cache := world.cache.insert world.alive key value }
  | .get key => { world with cache := (world.cache.get world.alive key).2 }
  | .sweep => { world with cache := world.cache.sweep world.alive }
  | .dies value => { world with dead := value :: world.dead }

/-- The world after some events, with an empty cache before them. -/
def after (history : List (WeakEvent κ ν)) : WeakWorld κ ν := history.foldl next {}

def answer (world : WeakWorld κ ν) (key : κ) : Option ν := (world.cache.get world.alive key).1

def untilSweep (history : List (WeakEvent κ ν)) : List (WeakEvent κ ν) :=
  ((history.inits.filter fun past =>
    (after past.dropLast).cache.sweeps < (after past).cache.sweeps).getLast?).getD []

theorem after_concat (history : List (WeakEvent κ ν)) (event : WeakEvent κ ν) :
    after (history ++ [event]) = (after history).next event := List.foldl_concat ..

theorem mem_dead_after : value ∈ (after history).dead ↔ .dies value ∈ history := by
  induction history using List.reverseRecOn with
  | nil => simp [after]
  | append_singleton past event ih =>
    rw [after_concat, List.mem_append, ← ih, List.mem_singleton]
    cases event <;> simp [next, or_comm]

theorem alive_after (value : ν) : (after history).alive value ↔ .dies value ∉ history := by
  rw [alive, decide_eq_true_iff, mem_dead_after]

theorem untilSweep_concat (history : List (WeakEvent κ ν)) (event : WeakEvent κ ν) :
    untilSweep (history ++ [event]) =
      if (after history).cache.sweeps < (after (history ++ [event])).cache.sweeps then
        history ++ [event]
      else untilSweep history := by
  unfold untilSweep
  have whole : (history ++ [event]).inits = history.inits ++ [history ++ [event]] := by
    rw [List.inits_append]
    rfl
  rw [whole, List.filter_append, List.filter_singleton, List.dropLast_concat]
  by_cases swept : (after history).cache.sweeps < (after (history ++ [event])).cache.sweeps <;>
    simp [swept]

theorem next_cases (world : WeakWorld κ ν) (event : WeakEvent κ ν) : ∃ placed : WeakCache κ ν,
    placed.entries = event.place world.cache.entries ∧ placed.mark = world.cache.mark ∧
    placed.sweeps = world.cache.sweeps ∧
    ((world.next event).cache = placed.sweep world.alive ∧ (∀ value, event ≠ .dies value) ∨
      (world.next event).cache = placed ∧
        (placed.entries = world.cache.entries ∨ placed.size < 2 * placed.mark)) := by
  cases event with
  | insert key value =>
    refine ⟨{ world.cache with entries := (WeakEvent.insert key value).place world.cache.entries },
      rfl, rfl, rfl, ?_⟩
    simp only [next]
    unfold WeakCache.insert
    dsimp only
    split
    · exact .inl ⟨rfl, nofun⟩
    · rename_i few
      refine .inr ⟨rfl, .inr ?_⟩
      rw [Bool.or_eq_true, not_or, decide_eq_true_iff] at few
      have := few.2
      simp only [WeakEvent.place]
      omega
  | get key =>
    refine ⟨(world.cache.get world.alive key).2, ?_⟩
    have same : (world.cache.get world.alive key).2.entries = world.cache.entries ∧
        (world.cache.get world.alive key).2.mark = world.cache.mark ∧
        (world.cache.get world.alive key).2.sweeps = world.cache.sweeps := by
      unfold WeakCache.get
      split
      · exact ⟨rfl, rfl, rfl⟩
      · split <;> exact ⟨rfl, rfl, rfl⟩
    exact ⟨same.1, same.2.1, same.2.2, .inr ⟨rfl, .inl same.1⟩⟩
  | sweep => exact ⟨world.cache, rfl, rfl, rfl, .inl ⟨rfl, nofun⟩⟩
  | dies value => exact ⟨world.cache, rfl, rfl, rfl, .inr ⟨rfl, .inl rfl⟩⟩

theorem remembers_after (history : List (WeakEvent κ ν)) :
    Remembers (after history).cache.entries history := by
  induction history using List.reverseRecOn with
  | nil => exact ⟨List.nodup_nil, List.forall_mem_nil _, fun _ _ absurd => nomatch absurd⟩
  | append_singleton past event ih =>
    obtain ⟨placed, entries, -, -, outcome⟩ := next_cases (after past) event
    have remembers := ih.place event
    rw [← entries] at remembers
    rw [after_concat]
    rcases outcome with ⟨swept, noDeath⟩ | ⟨kept, -⟩
    · rw [swept]
      refine remembers.filter fun value => ?_
      rw [alive_after, List.mem_append, List.mem_singleton, or_iff_left (noDeath value).symm]
    · rwa [kept]

theorem roomy_after (history : List (WeakEvent κ ν)) : (after history).cache.Roomy := by
  induction history using List.reverseRecOn with
  | nil => exact ⟨Nat.zero_lt_succ _, Nat.le_refl _⟩
  | append_singleton past event ih =>
    obtain ⟨placed, -, mark, -, outcome⟩ := next_cases (after past) event
    rw [after_concat]
    rcases outcome with ⟨swept, -⟩ | ⟨kept, few⟩
    · rw [swept]
      exact placed.roomy_sweep _
    · rw [kept]
      refine ⟨few.elim (fun same => ?_) id, mark ▸ ih.least⟩
      rw [WeakCache.size, same, mark]
      exact ih.fits

theorem mark_after (history : List (WeakEvent κ ν)) : (after history).cache.mark =
    max WeakCache.leastMark (livingKeys (untilSweep history)).length := by
  induction history using List.reverseRecOn with
  | nil => rfl
  | append_singleton past event ih =>
    obtain ⟨placed, entries, mark, sweeps, outcome⟩ := next_cases (after past) event
    rw [untilSweep_concat, after_concat]
    rcases outcome with ⟨swept, noDeath⟩ | ⟨kept, -⟩
    · have lives (value : ν) : (after past).alive value ↔ .dies value ∉ past ++ [event] := by
        rw [alive_after, List.mem_append, List.mem_singleton, or_iff_left (noDeath value).symm]
      have remembers := (remembers_after past).place event
      rw [← entries] at remembers
      have more : (after past).cache.sweeps < (placed.sweep (after past).alive).sweeps :=
        sweeps ▸ Nat.lt_succ_self _
      rw [swept, if_pos more, max_comm, ← remembers.length_filter lives]
      rfl
    · rw [kept, sweeps, if_neg (Nat.lt_irrefl _), mark, ih]

omit [DecidableEq ν] in
theorem lastGiven_filter (history : List (WeakEvent κ ν)) (key : κ) :
    lastGiven (history.filter (!·.isSweep)) key = lastGiven history key := by
  induction history using List.reverseRecOn with
  | nil => rfl
  | append_singleton past event ih =>
    rw [List.filter_append, List.filter_singleton, lastGiven_concat]
    cases event with
    | sweep =>
      rw [given?_eq_none rfl, Option.none_or, ← ih]
      exact congrArg (lastGiven · key) (List.append_nil _)
    | insert | get | dies =>
      rw [← ih, ← lastGiven_concat]
      rfl

theorem answer_eq_some {key : κ} : (after history).answer key = some value ↔
    lastGiven history key = some value ∧ .dies value ∉ history :=
  WeakCache.get_eq_some (remembers_after history) alive_after

/-- After any events a key is answered by the value that it was given last, as long as that is alive;
without the sweeps that were asked for the answers are the same; and there are fewer entries than twice
the mark, which the living entries have set at the last sweep. -/
theorem after_answers (history : List (WeakEvent κ ν)) :
    (∀ key value, (after history).answer key = some value ↔
      lastGiven history key = some value ∧ .dies value ∉ history) ∧
    (∀ key, (after (history.filter (!·.isSweep))).answer key = (after history).answer key) ∧
    (after history).cache.size < 2 * (after history).cache.mark ∧
    (after history).cache.mark = max 8 (livingKeys (untilSweep history)).length := by
  refine ⟨fun key value => answer_eq_some, fun key => Option.ext fun value => ?_,
    (roomy_after history).fits, mark_after history⟩
  rw [answer_eq_some, answer_eq_some, lastGiven_filter, List.mem_filter]
  simp [isSweep]

end WeakWorld

end ScriptMigration
