import Mathlib.Data.List.Induction
import Mathlib.Data.List.Nodup
import Mathlib.Data.List.Perm.Subperm
import Mathlib.Logic.Relation
import ScriptMigration.Include.Link
import ScriptMigration.Proofs.List.Repeats
import ScriptMigration.Proofs.Script.Store

/-! Linking a batch. What is read stays as it is and what is found stays where it is, so the includes
that linking finds for a script are those that its header has in the linked store. -/
namespace ScriptMigration

open Relation (ReflTransGen)

/-- The entries in the header of a script that are not its own key. -/
def Script.entries (script : Script) : List IncludeEntry :=
  (IncludeHeader.read script.text).entries.filter (!·.key.same script.key)

namespace ScriptStore

variable (store : ScriptStore)

/-- Whether there is a script of the number and nothing speaks against its text. -/
def accepts (id : ScriptId) : Bool := (store.get? id).any Script.isValid

def found (entries : List IncludeEntry) : List ScriptId := entries.filterMap (store.find? ·.key)

def taken (entries : List IncludeEntry) : List ScriptId :=
  ((store.found entries).filter store.accepts).eraseDups

def entriesOf (id : ScriptId) : List IncludeEntry := ((store.get? id).map Script.entries).getD []

def Mentions (script target : ScriptId) : Prop := target ∈ store.found (store.entriesOf script)

/-- The scripts that a script includes, in the order of its header. -/
def included (id : ScriptId) : List ScriptId := store.taken (store.entriesOf id)

def Includes (script target : ScriptId) : Prop := target ∈ store.included script

def LedTo (roots : List ScriptId) (script : ScriptId) : Prop :=
  ∃ root ∈ roots, ReflTransGen store.Mentions root script

variable {store}

theorem mem_found {entries : List IncludeEntry} {target : ScriptId} :
    target ∈ store.found entries ↔ ∃ entry ∈ entries, store.find? entry.key = some target :=
  List.mem_filterMap

theorem mem_taken {entries : List IncludeEntry} {target : ScriptId} :
    target ∈ store.taken entries ↔ target ∈ store.found entries ∧ store.accepts target := by
  rw [taken, List.mem_eraseDups, List.mem_filter]

theorem accepts_of_reached {script other : ScriptId} (reached : ReflTransGen store.Includes script other)
    (accepted : store.accepts script) : store.accepts other := by
  rcases reached.cases_tail with rfl | ⟨_, _, step⟩
  · exact accepted
  · exact (mem_taken.1 step).2

theorem entriesOf_of_get? {id : ScriptId} {script : Script} (listed : store.get? id = some script) :
    store.entriesOf id = script.entries := by
  rw [entriesOf, listed]
  rfl

theorem taken_concat_some {entries : List IncludeEntry} {entry : IncludeEntry} {target : ScriptId}
    (leads : store.find? entry.key = some target) : store.taken (entries ++ [entry]) =
      if store.accepts target && !(store.taken entries).contains target then
        store.taken entries ++ [target]
      else store.taken entries := by
  have more : store.found (entries ++ [entry]) = store.found entries ++ [target] := by
    simp [found, leads]
  rw [taken, more, List.filter_append]
  cases accepted : store.accepts target with
  | false => simp [accepted, taken]
  | true =>
    rw [List.filter_cons_of_pos accepted, List.filter_nil, eraseDups_concat, Bool.true_and]
    by_cases isTaken : target ∈ store.taken entries
    · rw [if_pos (List.mem_eraseDups.1 isTaken), if_neg (by simpa using isTaken)]
      rfl
    · rw [if_neg fun listed => isTaken (List.mem_eraseDups.2 listed), if_pos (by simpa using isTaken)]
      rfl

theorem taken_concat_none {entries : List IncludeEntry} {entry : IncludeEntry}
    (leads : store.find? entry.key = none) :
    store.taken (entries ++ [entry]) = store.taken entries := by
  simp [taken, found, leads]

/-- What linking does to a store: scripts that were read stay, names stay with their scripts, and
only what the source offers is added. -/
structure Grows (source : ScriptSource) (store after : ScriptStore) : Prop where
  kept : ∀ {id script}, store.get? id = some script → ∃ later, after.get? id = some later ∧
    later.key = script.key ∧ later.text = script.text ∧
      (script.reading ≠ .unread → later.reading = script.reading)
  found : ∀ {key id}, store.find? key = some id → after.find? key = some id
  absent : ∀ {key}, store.find? key = none → source.find? key = none → after.find? key = none

namespace Grows

variable {source : ScriptSource} {after last : ScriptStore}

theorem refl (source : ScriptSource) (store : ScriptStore) : Grows source store store :=
  ⟨fun listed => ⟨_, listed, rfl, rfl, fun _ => rfl⟩, fun found => found, fun absent _ => absent⟩

theorem trans (first : Grows source store after) (second : Grows source after last) :
    Grows source store last := by
  refine ⟨fun listed => ?_, fun found => second.found (first.found found),
    fun absent unoffered => second.absent (first.absent absent unoffered) unoffered⟩
  obtain ⟨middle, inMiddle, key, text, reading⟩ := first.kept listed
  obtain ⟨later, inLast, laterKey, laterText, laterReading⟩ := second.kept inMiddle
  refine ⟨later, inLast, laterKey.trans key, laterText.trans text, fun wasRead => ?_⟩
  have stays := reading wasRead
  exact (laterReading (stays ▸ wasRead)).trans stays

theorem entriesOf (grows : Grows source store after) {id : ScriptId} {script : Script}
    (listed : store.get? id = some script) : after.entriesOf id = store.entriesOf id := by
  obtain ⟨later, inAfter, key, text, -⟩ := grows.kept listed
  rw [entriesOf_of_get? inAfter, entriesOf_of_get? listed, Script.entries, Script.entries, key, text]

theorem accepts (grows : Grows source store after) {id : ScriptId} {script : Script}
    (listed : store.get? id = some script) (wasRead : script.reading ≠ .unread) :
    after.accepts id = store.accepts id := by
  obtain ⟨later, inAfter, -, -, reading⟩ := grows.kept listed
  rw [ScriptStore.accepts, ScriptStore.accepts, inAfter, listed]
  simp only [Option.any_some, Script.isValid, Script.faults?, reading wasRead]

theorem mentions (grows : Grows source store after) {script target : ScriptId}
    (mentions : store.Mentions script target) : after.Mentions script target := by
  obtain ⟨entry, among, found⟩ := mem_found.1 mentions
  cases listed : store.get? script with
  | none => simp [ScriptStore.entriesOf, listed] at among
  | some entryScript =>
    refine mem_found.2 ⟨entry, ?_, grows.found found⟩
    rw [grows.entriesOf listed]
    exact among

theorem ofReading (source : ScriptSource) {id : ScriptId} {script : Script} {reading : Reading}
    (listed : store.get? id = some script) (unread : script.reading = .unread) :
    Grows source store (store.setReading id reading) := by
  have names : (store.setReading id reading).names = store.names :=
    names_modify store id fun _ => rfl
  refine ⟨fun {other old} found => ?_, fun found => ?_, fun absent _ => ?_⟩
  · rw [setReading, get?_modify]
    split
    · rename_i same
      subst same
      obtain rfl := Option.some.inj (listed.symm.trans found)
      exact ⟨{ script with reading }, by rw [listed]; rfl, rfl, rfl, fun wasRead =>
        absurd unread wasRead⟩
    · exact ⟨old, found, rfl, rfl, fun _ => rfl⟩
  · rw [find?_congr names]
    exact found
  · rw [find?_congr names]
    exact absent

theorem ofAdd {key : ScriptKey} {script : Script}
    (offered : (source.find? key).isSome) (named : script.key.lookup = key.lookup) :
    Grows source store ⟨store.scripts ++ [script]⟩ := by
  refine ⟨fun listed => ⟨_, get?_append_of_some listed, rfl, rfl, fun _ => rfl⟩,
    fun found => find?_append_of_some found, fun {other} missing unoffered => ?_⟩
  rw [find?_eq_none_iff] at missing ⊢
  intro listed
  rw [names, List.map_append, List.map_singleton] at listed
  rcases List.mem_append.1 listed with old | new
  · exact missing old
  · -- a key that the source lacks cannot be that of a script that it offers
    have same : other.lookup = key.lookup := (List.mem_singleton.1 new).trans named
    rw [ScriptSource.find?, same] at unoffered
    rw [ScriptSource.find?, unoffered] at offered
    cases offered

end Grows

end ScriptStore

namespace LinkState

variable {σ : Type} {source : ScriptSource} {state after last : LinkState σ}

structure Advances (source : ScriptSource) (state after : LinkState σ) : Prop where
  visited : state.visited <:+ after.visited
  grows : state.store.Grows source after.store

namespace Advances

theorem refl (source : ScriptSource) (state : LinkState σ) : Advances source state state :=
  ⟨List.suffix_rfl, .refl source _⟩

theorem trans (first : Advances source state after) (second : Advances source after last) :
    Advances source state last :=
  ⟨first.visited.trans second.visited, first.grows.trans second.grows⟩

end Advances

/-- It is settled what an entry leads to: a script that is linked, or nothing. -/
def Settled (source : ScriptSource) (state : LinkState σ) (entry : IncludeEntry) : Prop :=
  (∃ target ∈ state.visited, state.store.find? entry.key = some target) ∨
    (state.store.find? entry.key = none ∧ source.find? entry.key = none)

theorem Settled.advance {entry : IncludeEntry} (settled : state.Settled source entry)
    (advances : Advances source state after) : after.Settled source entry := by
  rcases settled with ⟨target, visited, found⟩ | ⟨absent, unoffered⟩
  · exact .inl ⟨target, advances.visited.subset visited, advances.grows.found found⟩
  · exact .inr ⟨advances.grows.absent absent unoffered, unoffered⟩

theorem Advances.found (advances : Advances source state after) {entries : List IncludeEntry}
    (settled : ∀ entry ∈ entries, state.Settled source entry) :
    after.store.found entries = state.store.found entries := by
  refine List.filterMap_congr fun entry among => ?_
  rcases settled entry among with ⟨target, -, found⟩ | ⟨absent, unoffered⟩
  · rw [found, advances.grows.found found]
  · rw [absent, advances.grows.absent absent unoffered]

/-- What holds while scripts are linked, of which those in `opened` are not finished. The store had
`base` scripts at the start. -/
structure Sound (base : Nat) (source : ScriptSource) (opened : List ScriptId)
    (state : LinkState σ) : Prop where
  once : state.visited.Nodup
  known : ∀ id ∈ state.visited, ∃ script,
    state.store.get? id = some script ∧ script.reading ≠ .unread
  larger : base ≤ state.store.size
  fetchedOnce : (state.store.names.drop base).Nodup
  fetched : ∀ name ∈ state.store.names.drop base, name ∈ source.entries.map (·.1.lookup)
  started : ∀ id ∈ opened, id ∈ state.visited
  directOnce : (state.direct.map Prod.fst).Nodup
  finished : ∀ id, id ∈ state.direct.map Prod.fst ↔ id ∈ state.visited ∧ id ∉ opened
  includes : ∀ pair ∈ state.direct, pair.2 = state.store.included pair.1
  settled : ∀ pair ∈ state.direct, ∀ entry ∈ state.store.entriesOf pair.1,
    state.Settled source entry

namespace Sound

variable {base : Nat} {opened : List ScriptId}

theorem visited_le (sound : state.Sound base source opened) :
    state.visited.length ≤ base + source.entries.length := by
  have few : (state.store.names.drop base).length ≤ (source.entries.map (·.1.lookup)).length :=
    (List.subperm_of_subset sound.fetchedOnce sound.fetched).length_le
  have inStore : ∀ id ∈ state.visited, id ∈ state.store.ids := by
    intro id visited
    obtain ⟨script, listed, -⟩ := sound.known id visited
    obtain ⟨bound, -⟩ := List.getElem?_eq_some_iff.1 listed
    exact List.mem_map.2 ⟨id.index, List.mem_range.2 bound, rfl⟩
  have within := (List.subperm_of_subset sound.once inStore).length_le
  simp only [List.length_drop, ScriptStore.length_names, List.length_map, ScriptStore.ids,
    List.length_range] at few within
  omega

theorem taken_advance (sound : state.Sound base source opened)
    (advances : Advances source state after) {entries : List IncludeEntry}
    (settled : ∀ entry ∈ entries, state.Settled source entry) :
    after.store.taken entries = state.store.taken entries := by
  rw [ScriptStore.taken, ScriptStore.taken, advances.found settled]
  refine congrArg List.eraseDups (List.filter_congr fun target listed => ?_)
  obtain ⟨entry, among, leads⟩ := ScriptStore.mem_found.1 listed
  rcases settled entry among with ⟨other, visited, found⟩ | ⟨absent, -⟩
  · obtain rfl := Option.some.inj (found.symm.trans leads)
    obtain ⟨script, inStore, wasRead⟩ := sound.known other visited
    exact advances.grows.accepts inStore wasRead
  · exact nomatch absent.symm.trans leads

/-- A state stays sound when scripts are read, fetched or visited and none is finished. -/
theorem advance (sound : state.Sound base source opened) (advances : Advances source state after)
    {others : List ScriptId} (direct : after.direct = state.direct) (once : after.visited.Nodup)
    (known : ∀ id ∈ after.visited, id ∈ state.visited ∨
      ∃ script, after.store.get? id = some script ∧ script.reading ≠ .unread)
    (larger : base ≤ after.store.size) (fetchedOnce : (after.store.names.drop base).Nodup)
    (fetched : ∀ name ∈ after.store.names.drop base, name ∈ source.entries.map (·.1.lookup))
    (started : ∀ id ∈ others, id ∈ after.visited)
    (unfinished : ∀ id, id ∈ state.visited ∧ id ∉ opened ↔ id ∈ after.visited ∧ id ∉ others) :
    after.Sound base source others := by
  have inStore : ∀ pair ∈ state.direct, ∃ script, state.store.get? pair.1 = some script := by
    intro pair listed
    obtain ⟨script, found, -⟩ := sound.known pair.1
      ((sound.finished pair.1).1 (List.mem_map.2 ⟨pair, listed, rfl⟩)).1
    exact ⟨script, found⟩
  refine ⟨once, fun id listed => ?_, larger, fetchedOnce, fetched, started,
    direct ▸ sound.directOnce, fun id => ?_, fun pair listed => ?_, fun pair listed entry among => ?_⟩
  · rcases known id listed with old | new
    · obtain ⟨script, found, wasRead⟩ := sound.known id old
      obtain ⟨later, inAfter, -, -, reading⟩ := advances.grows.kept found
      exact ⟨later, inAfter, by rwa [reading wasRead]⟩
    · exact new
  · rw [direct, sound.finished, unfinished]
  · rw [direct] at listed
    obtain ⟨script, found⟩ := inStore pair listed
    rw [sound.includes pair listed, ScriptStore.included, ScriptStore.included,
      advances.grows.entriesOf found, sound.taken_advance advances (sound.settled pair listed)]
  · rw [direct] at listed
    obtain ⟨script, found⟩ := inStore pair listed
    rw [advances.grows.entriesOf found] at among
    exact (sound.settled pair listed entry among).advance advances

theorem advanceSame (sound : state.Sound base source opened) (advances : Advances source state after)
    (visited : after.visited = state.visited) (direct : after.direct = state.direct)
    (larger : base ≤ after.store.size) (fetchedOnce : (after.store.names.drop base).Nodup)
    (fetched : ∀ name ∈ after.store.names.drop base, name ∈ source.entries.map (·.1.lookup)) :
    after.Sound base source opened := by
  refine sound.advance advances direct (visited ▸ sound.once) (fun id listed => .inl (visited ▸ listed))
    larger fetchedOnce fetched (visited ▸ sound.started) fun id => ?_
  rw [visited]

end Sound

section Steps

variable {base : Nat} {opened : List ScriptId}

theorem readScript_cases (source : ScriptSource) (read : ScriptReader σ) (state : LinkState σ)
    {id : ScriptId} {script : Script} (listed : state.store.get? id = some script) :
    (readScript read id state).visited = state.visited ∧
      (readScript read id state).direct = state.direct ∧
      (readScript read id state).store.names = state.store.names ∧
      state.store.Grows source (readScript read id state).store ∧
      ∃ later, (readScript read id state).store.get? id = some later ∧
        later.reading ≠ .unread := by
  have reread (reading : Reading) (isRead : reading ≠ .unread) (unread : script.reading = .unread) :
      (state.store.setReading id reading).names = state.store.names ∧
        state.store.Grows source (state.store.setReading id reading) ∧
        ∃ later, (state.store.setReading id reading).get? id = some later ∧
          later.reading ≠ .unread := by
    refine ⟨ScriptStore.names_modify _ _ fun _ => rfl, .ofReading source listed unread,
      { script with reading }, ?_, isRead⟩
    rw [ScriptStore.setReading, ScriptStore.get?_modify, if_pos rfl, listed]
    rfl
  unfold readScript
  rw [listed]
  dsimp only
  split
  · rename_i draft isRead
    exact ⟨rfl, rfl, rfl, .refl source _, script, listed, by simp [isRead]⟩
  · rename_i faults isRead
    exact ⟨rfl, rfl, rfl, .refl source _, script, listed, by simp [isRead]⟩
  · rename_i unread
    split
    · exact ⟨rfl, rfl, reread _ (fun absurd => by cases absurd) unread⟩
    · exact ⟨rfl, rfl, reread _ (fun absurd => by cases absurd) unread⟩

theorem Sound.visit (sound : state.Sound base source opened) (read : ScriptReader σ) {id : ScriptId}
    (new : id ∉ state.visited) {script : Script} (listed : state.store.get? id = some script) :
    (readScript read id { state with visited := id :: state.visited }).Sound base source
        (id :: opened) ∧
      Advances source state (readScript read id { state with visited := id :: state.visited }) ∧
      (readScript read id { state with visited := id :: state.visited }).visited =
        id :: state.visited := by
  obtain ⟨visited, direct, names, grows, later, inAfter, isRead⟩ :=
    readScript_cases source read { state with visited := id :: state.visited } listed
  have advances : Advances source state
      (readScript read id { state with visited := id :: state.visited }) :=
    ⟨visited ▸ List.suffix_cons .., grows⟩
  have size := congrArg List.length names
  rw [ScriptStore.length_names, ScriptStore.length_names] at size
  refine ⟨sound.advance advances direct (visited ▸ List.nodup_cons.2 ⟨new, sound.once⟩)
    (fun other among => ?_) (size ▸ sound.larger) (names ▸ sound.fetchedOnce)
    (names ▸ sound.fetched) (fun other among => ?_) fun other => ?_, advances, visited⟩
  · rw [visited] at among
    rcases List.mem_cons.1 among with rfl | old
    · exact .inr ⟨later, inAfter, isRead⟩
    · exact .inl old
  · rw [visited]
    exact (List.mem_cons.1 among).elim (fun same => same ▸ List.mem_cons_self ..) fun old =>
      List.mem_cons_of_mem _ (sound.started other old)
  · rw [visited, List.mem_cons, List.mem_cons, not_or]
    constructor
    · rintro ⟨old, shut⟩
      exact ⟨.inr old, fun same => new (same ▸ old), shut⟩
    · rintro ⟨either, differs, shut⟩
      exact ⟨either.resolve_left differs, shut⟩

theorem fetch_cases (sound : state.Sound base source opened) (key : ScriptKey) :
    (fetch source key state).2.Sound base source opened ∧
      Advances source state (fetch source key state).2 ∧
      (fetch source key state).2.visited = state.visited ∧
      (∀ index < (fetch source key state).2.store.size, state.store.size ≤ index →
        (fetch source key state).1 = some ⟨index⟩) ∧
      (((fetch source key state).1 = none ∧ source.find? key = none ∧
          (fetch source key state).2.store.find? key = none) ∨
        ∃ target, (fetch source key state).1 = some target ∧
          (fetch source key state).2.store.find? key = some target) := by
  cases found : state.store.find? key with
  | some id =>
    have same : fetch source key state = (some id, state) := by rw [fetch, found]
    rw [same]
    exact ⟨sound, .refl source state, rfl, fun index small large => absurd small (Nat.not_lt.2 large),
      .inr ⟨id, rfl, found⟩⟩
  | none =>
    cases offered : source.find? key with
    | none =>
      have same : fetch source key state = (none, { state with asked := state.asked ++ [key] }) := by
        simp only [fetch, found, offered]
      rw [same]
      have advances : Advances source state { state with asked := state.asked ++ [key] } :=
        ⟨List.suffix_rfl, .refl source _⟩
      exact ⟨sound.advanceSame advances rfl rfl sound.larger sound.fetchedOnce sound.fetched, advances,
        rfl, fun index small large => absurd small (Nat.not_lt.2 large), .inl ⟨rfl, rfl, found⟩⟩
    | some script =>
      let new : Script := { key, plugin := script.plugin, text := script.text }
      let next : LinkState σ := { state with
        store := ⟨state.store.scripts ++ [new]⟩
        asked := state.asked ++ [key]
        loaded := state.loaded + 1 }
      have same : fetch source key state = (some ⟨state.store.size⟩, next) := by
        simp only [fetch, found, offered, ScriptStore.add_of_none found]
        rfl
      rw [same]
      have advances : Advances source state next :=
        ⟨List.suffix_rfl, .ofAdd (by rw [offered]; rfl) rfl⟩
      have names : next.store.names.drop base = state.store.names.drop base ++ [key.lookup] := by
        have within : base ≤ state.store.names.length := by
          rw [ScriptStore.length_names]
          exact sound.larger
        rw [ScriptStore.names, List.map_append, List.map_singleton]
        exact List.drop_append_of_le_length within
      have absent := ScriptStore.find?_eq_none_iff.1 found
      have longer : next.store.size = state.store.size + 1 := List.length_append ..
      refine ⟨sound.advanceSame advances rfl rfl ?_ ?_ ?_, advances, rfl, fun index small large => ?_,
        .inr ⟨_, rfl, ScriptStore.find?_append_new found rfl⟩⟩
      · exact longer ▸ Nat.le_succ_of_le sound.larger
      · rw [names]
        exact List.nodup_append'.2 ⟨sound.fetchedOnce, List.nodup_singleton _, fun name old isNew =>
          absent (List.mem_singleton.1 isNew ▸ List.mem_of_mem_drop old)⟩
      · rw [names]
        intro name listed
        rcases List.mem_append.1 listed with old | isNew
        · exact sound.fetched name old
        · obtain ⟨entry, isEntry, -⟩ := Option.map_eq_some_iff.1 offered
          have among := List.mem_reverse.1 (List.mem_of_find?_eq_some isEntry)
          have matching := List.find?_some isEntry
          exact List.mem_map.2 ⟨entry, among, (by simpa using matching : entry.1.lookup =
            key.lookup).trans (List.mem_singleton.1 isNew).symm⟩
      · rw [longer] at small
        exact congrArg (fun place => some (ScriptId.mk place)) (by omega)

/-- What comes of linking scripts: they are visited, and so are what they lead to and all scripts that
were fetched. -/
structure Links (base : Nat) (source : ScriptSource) (opened starts : List ScriptId)
    (state after : LinkState σ) : Prop where
  sound : after.Sound base source opened
  advances : Advances source state after
  begun : ∀ start ∈ starts, start ∈ after.visited
  reached : ∀ id ∈ after.visited, id ∈ state.visited ∨
    ∃ start ∈ starts, ReflTransGen after.store.Mentions start id
  joined : ∀ index < after.store.size, state.store.size ≤ index → ⟨index⟩ ∈ after.visited

theorem Links.append {first second : List ScriptId}
    (left : Links base source opened first state after)
    (right : Links base source opened second after last) :
    Links base source opened (first ++ second) state last := by
  refine ⟨right.sound, left.advances.trans right.advances, fun start listed => ?_,
    fun id visited => ?_, fun index small large => ?_⟩
  · rcases List.mem_append.1 listed with isFirst | isSecond
    · exact right.advances.visited.subset (left.begun start isFirst)
    · exact right.begun start isSecond
  · rcases right.reached id visited with before | ⟨start, isSecond, leads⟩
    · rcases left.reached id before with old | ⟨start, isFirst, leads⟩
      · exact .inl old
      · exact .inr ⟨start, List.mem_append_left _ isFirst,
          ReflTransGen.mono (fun _ _ mentions => right.advances.grows.mentions mentions) _ _ leads⟩
    · exact .inr ⟨start, List.mem_append_right _ isSecond, leads⟩
  · rcases Nat.lt_or_ge index after.store.size with old | new
    · exact right.advances.visited.subset (left.joined index old large)
    · exact right.joined index small new

/-- Follows one entry of a header, with what the entries before it gave. -/
def follow (read : ScriptReader σ) (source : ScriptSource) (bound : Nat) (own : ScriptKey)
    (reached : List ScriptId × LinkState σ) (entry : IncludeEntry) : List ScriptId × LinkState σ :=
  match fetch source entry.key reached.2 with
  | (none, state) =>
    (reached.1, state.warn s!"{own.render}: {(IncludeFault.notFound entry.key).message}")
  | (some target, state) =>
    let state := link read source bound target state
    if (state.store.get? target).any Script.isValid && !reached.1.contains target then
      (reached.1 ++ [target], state)
    else (reached.1, state)

theorem Sound.warned (sound : state.Sound base source opened) (diagnostics : List Diagnostic) :
    Sound base source opened { state with diagnostics } :=
  sound.advanceSame ⟨List.suffix_rfl, .refl source _⟩ rfl rfl sound.larger sound.fetchedOnce
    sound.fetched

theorem foldl_warn {α : Type} (message : α → String) (items : List α) (state : LinkState σ) :
    ∃ diagnostics, items.foldl (fun state item => state.warn (message item)) state =
      { state with diagnostics } := by
  induction items generalizing state with
  | nil => exact ⟨state.diagnostics, rfl⟩
  | cons item rest ih =>
    obtain ⟨diagnostics, same⟩ := ih (state.warn (message item))
    exact ⟨diagnostics, same⟩

section Follow

variable {read : ScriptReader σ} {bound : Nat}
  (linked : ∀ {target : ScriptId} {state : LinkState σ} {script : Script},
    state.Sound base source opened → state.store.get? target = some script →
    base + source.entries.length < bound + state.visited.length →
    Links base source opened [target] state (link read source bound target state))

include linked

theorem follow_spec (own : ScriptKey) (entry : IncludeEntry) {before : List IncludeEntry}
    (sound : state.Sound base source opened)
    (room : base + source.entries.length < bound + state.visited.length)
    (settled : ∀ entry ∈ before, state.Settled source entry) :
    ∃ after, follow read source bound own (state.store.taken before, state) entry =
        (after.store.taken (before ++ [entry]), after) ∧
      Links base source opened (after.store.found [entry]) state after ∧
      ∀ other ∈ before ++ [entry], after.Settled source other := by
  obtain ⟨fetchedSound, fetched, sameVisited, joined, cases⟩ := fetch_cases sound entry.key
  unfold follow
  dsimp only
  rcases found : fetch source entry.key state with ⟨target?, next⟩
  rw [found] at fetchedSound fetched sameVisited joined cases
  dsimp only at fetchedSound fetched sameVisited joined cases ⊢
  rcases cases with ⟨isNone, unoffered, absent⟩ | ⟨target, isSome, isFound⟩
  · obtain rfl : target? = none := isNone
    let after := next.warn s!"{own.render}: {(IncludeFault.notFound entry.key).message}"
    have advances : Advances source state after := ⟨fetched.visited, fetched.grows⟩
    have noStart : after.store.found [entry] = [] := by
      have none : after.store.find? entry.key = none := absent
      simp [ScriptStore.found, none]
    refine ⟨after, Prod.ext ?_ rfl, ?_, fun other among => ?_⟩
    · have none : after.store.find? entry.key = none := absent
      rw [ScriptStore.taken_concat_none none, sound.taken_advance advances settled]
    · rw [noStart]
      refine ⟨fetchedSound.warned _, advances, fun _ listed => absurd listed List.not_mem_nil,
        fun id visited => .inl (sameVisited ▸ visited), fun index small large => ?_⟩
      exact nomatch joined index small large
    · rcases List.mem_append.1 among with old | new
      · exact (settled other old).advance advances
      · obtain rfl := List.mem_singleton.1 new
        exact .inr ⟨absent, unoffered⟩
  · obtain rfl : target? = some target := isSome
    obtain ⟨script, listed, -⟩ := ScriptStore.get?_of_find? isFound
    have links := linked fetchedSound listed (by rw [sameVisited]; exact room)
    let after := link read source bound target next
    have advances : Advances source state after := fetched.trans links.advances
    have leads : after.store.find? entry.key = some target := links.advances.grows.found isFound
    have start : after.store.found [entry] = [target] := by simp [ScriptStore.found, leads]
    refine ⟨after, ?_, ?_, fun other among => ?_⟩
    · rw [ScriptStore.taken_concat_some leads, sound.taken_advance advances settled]
      exact (apply_ite (·, after) ..).symm
    · rw [start]
      refine ⟨links.sound, advances, links.begun, fun id visited => ?_, fun index small large => ?_⟩
      · rw [← sameVisited]
        exact links.reached id visited
      · rcases Nat.lt_or_ge index next.store.size with old | new
        · obtain rfl := Option.some.inj (joined index old large)
          exact links.begun _ (List.mem_singleton_self _)
        · exact links.joined index small new
    · rcases List.mem_append.1 among with old | new
      · exact (settled other old).advance advances
      · obtain rfl := List.mem_singleton.1 new
        exact .inl ⟨target, links.begun target (List.mem_singleton_self _), leads⟩

theorem foldl_follow_from (own : ScriptKey) (entries before : List IncludeEntry)
    (sound : state.Sound base source opened)
    (room : base + source.entries.length < bound + state.visited.length)
    (settled : ∀ entry ∈ before, state.Settled source entry) :
    ∃ after, entries.foldl (follow read source bound own) (state.store.taken before, state) =
        (after.store.taken (before ++ entries), after) ∧
      Links base source opened (after.store.found entries) state after ∧
      ∀ entry ∈ before ++ entries, after.Settled source entry := by
  induction entries generalizing before state with
  | nil =>
    refine ⟨state, by rw [List.append_nil]; rfl, ⟨sound, .refl source state, ?_, fun _ => .inl,
      fun index small large => absurd small (Nat.not_lt.2 large)⟩, ?_⟩
    · exact fun _ absurd => nomatch absurd
    · rwa [List.append_nil]
  | cons entry rest ih =>
    obtain ⟨next, same, first, settledNow⟩ := follow_spec linked own entry sound room settled
    have roomNow : base + source.entries.length < bound + next.visited.length :=
      Nat.lt_of_lt_of_le room (Nat.add_le_add_left first.advances.visited.length_le _)
    obtain ⟨after, sameRest, second, settledLater⟩ := ih _ first.sound roomNow settledNow
    rw [List.append_assoc, List.singleton_append] at sameRest settledLater
    refine ⟨after, by rw [List.foldl_cons, same, sameRest], ?_, settledLater⟩
    have found : after.store.found [entry] = next.store.found [entry] :=
      second.advances.found fun entry among => settledNow entry (List.mem_append_right _ among)
    have split : after.store.found (entry :: rest) =
        next.store.found [entry] ++ after.store.found rest := by
      rw [← found]
      exact List.filterMap_append (l := [entry])
    rw [split]
    exact first.append second

theorem foldl_follow (own : ScriptKey) (entries : List IncludeEntry)
    (sound : state.Sound base source opened)
    (room : base + source.entries.length < bound + state.visited.length) :
    ∃ after, entries.foldl (follow read source bound own) ([], state) =
        (after.store.taken entries, after) ∧
      Links base source opened (after.store.found entries) state after ∧
      ∀ entry ∈ entries, after.Settled source entry :=
  foldl_follow_from linked own entries [] sound room fun _ absurd => nomatch absurd

end Follow

/-- A script is finished when all its entries are settled. -/
theorem Sound.finish {id : ScriptId} (sound : state.Sound base source (id :: opened))
    {entries : List IncludeEntry} (sameEntries : state.store.entriesOf id = entries)
    (settled : ∀ entry ∈ entries, state.Settled source entry) (unopened : id ∉ opened) :
    Sound base source opened
      { state with direct := state.direct ++ [(id, state.store.taken entries)] } := by
  have unfinished : id ∉ state.direct.map Prod.fst := fun listed =>
    ((sound.finished id).1 listed).2 (List.mem_cons_self ..)
  have names : (state.direct ++ [(id, state.store.taken entries)]).map Prod.fst =
      state.direct.map Prod.fst ++ [id] := List.map_append ..
  refine ⟨sound.once, sound.known, sound.larger, sound.fetchedOnce, sound.fetched,
    fun other isOpened => sound.started other (List.mem_cons_of_mem _ isOpened), ?_, fun other => ?_,
    fun pair listed => ?_, fun pair listed => ?_⟩
  · rw [names]
    exact List.nodup_append'.2 ⟨sound.directOnce, List.nodup_singleton _, fun other old isId =>
      unfinished (List.mem_singleton.1 isId ▸ old)⟩
  · rw [names, List.mem_append, List.mem_singleton, sound.finished, List.mem_cons, not_or]
    constructor
    · rintro (⟨visited, -, shut⟩ | rfl)
      · exact ⟨visited, shut⟩
      · exact ⟨sound.started other (List.mem_cons_self ..), unopened⟩
    · rintro ⟨visited, shut⟩
      by_cases same : other = id
      · exact .inr same
      · exact .inl ⟨visited, same, shut⟩
  · rcases List.mem_append.1 listed with old | new
    · exact sound.includes pair old
    · obtain rfl := List.mem_singleton.1 new
      exact congrArg state.store.taken sameEntries.symm
  · rcases List.mem_append.1 listed with old | new
    · exact sound.settled pair old
    · obtain rfl := List.mem_singleton.1 new
      exact sameEntries ▸ settled

theorem link_unvisited (read : ScriptReader σ) (source : ScriptSource) (bound : Nat) {id : ScriptId}
    (new : ¬ state.visited.contains id) {script : Script}
    (listed : (readScript read id { state with visited := id :: state.visited }).store.get? id =
      some script) {reached : List ScriptId × LinkState σ}
    (follows : script.entries.foldl (follow read source bound script.key)
      ([], (IncludeHeader.read script.text).faults.foldl
        (fun state fault => state.warn s!"{script.key.render}: {fault.message}")
        (readScript read id { state with visited := id :: state.visited })) = reached) :
    link read source (bound + 1) id state =
      { reached.2 with direct := reached.2.direct ++ [(id, reached.1)] } := by
  subst follows
  rw [link, if_neg new]
  dsimp only
  rw [listed]
  -- only what the entries lead to is left to compare
  refine congrArg (fun reached : List ScriptId × LinkState σ =>
    { reached.2 with direct := reached.2.direct ++ [(id, reached.1)] }) ?_
  rfl

theorem link_succ (read : ScriptReader σ) (source : ScriptSource) (bound : Nat) {id : ScriptId}
    (new : id ∉ state.visited) {script : Script}
    (listed : (readScript read id { state with visited := id :: state.visited }).store.get? id =
      some script) :
    ∃ diagnostics, ∀ reached, script.entries.foldl (follow read source bound script.key)
        ([], { readScript read id { state with visited := id :: state.visited } with
          diagnostics }) = reached →
      link read source (bound + 1) id state =
        { reached.2 with direct := reached.2.direct ++ [(id, reached.1)] } := by
  obtain ⟨diagnostics, warned⟩ := foldl_warn (fun fault : IncludeFault =>
    s!"{script.key.render}: {fault.message}") (IncludeHeader.read script.text).faults
      (readScript read id { state with visited := id :: state.visited })
  refine ⟨diagnostics, fun reached follows => ?_⟩
  exact link_unvisited read source bound (by simpa using new) listed (by rw [warned, follows])

/-- Linking a script visits it and what it leads to, if the bound exceeds the number of scripts that
are not visited. -/
theorem Sound.link (sound : state.Sound base source opened) (read : ScriptReader σ) {bound : Nat}
    {id : ScriptId} {script : Script} (listed : state.store.get? id = some script)
    (room : base + source.entries.length < bound + state.visited.length) :
    Links base source opened [id] state (link read source bound id state) := by
  induction bound generalizing state opened id script with
  | zero =>
    have few := sound.visited_le
    omega
  | succ bound ih =>
    by_cases visited : id ∈ state.visited
    · have same : LinkState.link read source (bound + 1) id state = state := by
        rw [LinkState.link, if_pos (by simpa using visited)]
      rw [same]
      exact ⟨sound, .refl source state, by simpa using visited, fun _ => .inl,
        fun index small large => absurd small (Nat.not_lt.2 large)⟩
    · obtain ⟨soundNow, advances, visitedNow⟩ := sound.visit read visited listed
      obtain ⟨later, inStore, -⟩ := soundNow.known id (by rw [visitedNow]; exact List.mem_cons_self ..)
      obtain ⟨diagnostics, unfolds⟩ := link_succ read source bound visited inStore
      let next := readScript read id { state with visited := id :: state.visited }
      have roomNow : base + source.entries.length < bound + next.visited.length := by
        rw [visitedNow, List.length_cons]
        omega
      obtain ⟨after, same, links, settled⟩ := foldl_follow (fun soundThen inThen roomThen =>
        ih soundThen inThen roomThen) later.key later.entries (soundNow.warned diagnostics) roomNow
      rw [unfolds _ same]
      dsimp only
      have entries : after.store.entriesOf id = later.entries :=
        (links.advances.grows.entriesOf inStore).trans (ScriptStore.entriesOf_of_get? inStore)
      refine ⟨links.sound.finish entries settled fun isOpened => visited (sound.started id isOpened),
        advances.trans ⟨links.advances.visited, links.advances.grows⟩, fun start isStart => ?_,
        fun other isVisited => ?_, fun index small large => links.joined index small ?_⟩
      · obtain rfl := List.mem_singleton.1 isStart
        exact links.sound.started start (List.mem_cons_self ..)
      · rcases links.reached other isVisited with before | ⟨start, isStart, leads⟩
        · rcases List.mem_cons.1 (visitedNow ▸ before) with rfl | old
          · exact .inr ⟨other, List.mem_singleton_self _, .refl⟩
          · exact .inl old
        · have mentions : after.store.Mentions id start := by
            rwa [ScriptStore.Mentions, entries]
          exact .inr ⟨id, List.mem_singleton_self _, .head mentions leads⟩
      · have size := congrArg List.length (readScript_cases source read
          { state with visited := id :: state.visited } listed).2.2.1
        rw [ScriptStore.length_names, ScriptStore.length_names] at size
        exact Nat.le_trans (Nat.le_of_eq size) large

end Steps

end LinkState

end ScriptMigration
