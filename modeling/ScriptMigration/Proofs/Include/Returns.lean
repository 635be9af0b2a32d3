import Mathlib.Logic.Basic
import ScriptMigration.Proofs.Include.Readers

/-! Linking ends. Told without a bound on its depth, linking a script is a derivation in which every
call has returned; it exists for every batch and every source, whatever includes what. Each script is
read once on the way, and what is fetched is counted. -/
namespace ScriptMigration

def ScriptReader.logged {σ : Type} (read : ScriptReader σ) : ScriptReader (σ × List ScriptId) :=
  fun id script state =>
    ((read id script state.1).1, (read id script state.1).2, state.2 ++ [id])

namespace LinkState

variable {σ : Type}

mutual

/-- Linking a script returns: with no change if it was visited before, and otherwise once all entries
of its header are followed. -/
inductive Returns (read : ScriptReader σ) (source : ScriptSource) :
    ScriptId → LinkState σ → LinkState σ → Prop
  | visited {id : ScriptId} {state : LinkState σ} (old : id ∈ state.visited) :
      Returns read source id state state
  | unknown {id : ScriptId} {state opened : LinkState σ} (new : id ∉ state.visited)
      (isOpened : opened = readScript read id { state with visited := id :: state.visited })
      (missing : opened.store.get? id = none) : Returns read source id state opened
  | script {id : ScriptId} {state opened after : LinkState σ} {script : Script}
      {targets : List ScriptId} (new : id ∉ state.visited)
      (isOpened : opened = readScript read id { state with visited := id :: state.visited })
      (listed : opened.store.get? id = some script)
      (followed : Followed read source script.key script.entries
        ([], (IncludeHeader.read script.text).faults.foldl
          (fun state fault => state.warn s!"{script.key.render}: {fault.message}") opened)
        (targets, after)) :
      Returns read source id state { after with direct := after.direct ++ [(id, targets)] }

/-- All entries of a header are followed, one after the other; the calls for what they lead to have
returned. -/
inductive Followed (read : ScriptReader σ) (source : ScriptSource) :
    ScriptKey → List IncludeEntry → List ScriptId × LinkState σ → List ScriptId × LinkState σ → Prop
  | nil {own : ScriptKey} {reached : List ScriptId × LinkState σ} :
      Followed read source own [] reached reached
  | absent {own : ScriptKey} {entry : IncludeEntry} {rest : List IncludeEntry}
      {targets : List ScriptId} {state asked : LinkState σ} {last : List ScriptId × LinkState σ}
      (fetched : fetch source entry.key state = (none, asked))
      (followed : Followed read source own rest (targets,
        asked.warn s!"{own.render}: {(IncludeFault.notFound entry.key).message}") last) :
      Followed read source own (entry :: rest) (targets, state) last
  | found {own : ScriptKey} {entry : IncludeEntry} {rest : List IncludeEntry}
      {targets : List ScriptId} {target : ScriptId} {state next after : LinkState σ}
      {last : List ScriptId × LinkState σ}
      (fetched : fetch source entry.key state = (some target, next))
      (returns : Returns read source target next after)
      (followed : Followed read source own rest
        (if (after.store.get? target).any Script.isValid && !targets.contains target then
          targets ++ [target] else targets, after) last) :
      Followed read source own (entry :: rest) (targets, state) last

end

inductive ReturnsAll (read : ScriptReader σ) (source : ScriptSource) :
    List ScriptId → LinkState σ → LinkState σ → Prop
  | nil {state : LinkState σ} : ReturnsAll read source [] state state
  | cons {root : ScriptId} {rest : List ScriptId} {state next after : LinkState σ}
      (first : Returns read source root state next) (others : ReturnsAll read source rest next after) :
      ReturnsAll read source (root :: rest) state after

variable {read : ScriptReader σ} {source : ScriptSource} {state after : LinkState σ}

section Exists

variable {base bound : Nat} {opened : List ScriptId}

theorem follow_absent {own : ScriptKey} {entry : IncludeEntry} {targets : List ScriptId}
    {asked : LinkState σ} (fetched : fetch source entry.key state = (none, asked)) :
    follow read source bound own (targets, state) entry =
      (targets, asked.warn s!"{own.render}: {(IncludeFault.notFound entry.key).message}") := by
  rw [follow, fetched]

theorem follow_found {own : ScriptKey} {entry : IncludeEntry} {targets : List ScriptId}
    {target : ScriptId} {next : LinkState σ}
    (fetched : fetch source entry.key state = (some target, next)) :
    follow read source bound own (targets, state) entry =
      (if ((LinkState.link read source bound target next).store.get? target).any Script.isValid &&
          !targets.contains target then targets ++ [target] else targets,
        LinkState.link read source bound target next) := by
  rw [follow, fetched]
  exact (apply_ite (·, LinkState.link read source bound target next) ..).symm

theorem follow_sound (read : ScriptReader σ) (own : ScriptKey) (targets : List ScriptId)
    (entry : IncludeEntry)
    (sound : state.Sound base source opened)
    (room : base + source.entries.length < bound + state.visited.length) :
    (follow read source bound own (targets, state) entry).2.Sound base source opened ∧
      state.visited <:+ (follow read source bound own (targets, state) entry).2.visited := by
  obtain ⟨fetchedSound, advances, sameVisited, -, cases⟩ := fetch_cases sound entry.key
  rcases fetched : fetch source entry.key state with ⟨target?, next⟩
  rw [fetched] at fetchedSound advances sameVisited cases
  rcases cases with ⟨rfl, -, -⟩ | ⟨target, rfl, isFound⟩
  · rw [follow_absent fetched]
    exact ⟨fetchedSound.warned _, advances.visited⟩
  · obtain ⟨script, listed, -⟩ := ScriptStore.get?_of_find? isFound
    have links := fetchedSound.link read listed (by rw [sameVisited]; exact room)
    rw [follow_found fetched]
    exact ⟨links.sound, (advances.trans links.advances).visited⟩

theorem foldl_follow_followed
    (returned : ∀ {target : ScriptId} {state : LinkState σ} {script : Script},
      state.Sound base source opened → state.store.get? target = some script →
      base + source.entries.length < bound + state.visited.length →
      Returns read source target state (LinkState.link read source bound target state))
    (own : ScriptKey) (entries : List IncludeEntry) (targets : List ScriptId)
    (sound : state.Sound base source opened)
    (room : base + source.entries.length < bound + state.visited.length) :
    Followed read source own entries (targets, state)
      (entries.foldl (follow read source bound own) (targets, state)) := by
  induction entries generalizing targets state with
  | nil => exact .nil
  | cons entry rest ih =>
    obtain ⟨soundNext, visited⟩ := follow_sound read own targets entry sound room
    have roomNext := Nat.lt_of_lt_of_le room (Nat.add_le_add_left visited.length_le bound)
    have later : Followed read source own rest
        (follow read source bound own (targets, state) entry) (rest.foldl (follow read source bound own)
          (follow read source bound own (targets, state) entry)) := ih _ soundNext roomNext
    obtain ⟨fetchedSound, -, sameVisited, -, cases⟩ := fetch_cases sound entry.key
    rcases fetched : fetch source entry.key state with ⟨target?, next⟩
    rw [fetched] at fetchedSound sameVisited cases
    rw [List.foldl_cons]
    rcases cases with ⟨rfl, -, -⟩ | ⟨target, rfl, isFound⟩
    · rw [follow_absent fetched] at later ⊢
      exact .absent fetched later
    · obtain ⟨script, listed, -⟩ := ScriptStore.get?_of_find? isFound
      rw [follow_found fetched] at later ⊢
      exact .found fetched (returned fetchedSound listed (by rw [sameVisited]; exact room)) later

/-- Linking meets no bound: a call leaves fewer scripts to visit than its caller has. -/
theorem Sound.returns (sound : state.Sound base source opened) {id : ScriptId} {script : Script}
    (listed : state.store.get? id = some script)
    (room : base + source.entries.length < bound + state.visited.length) :
    Returns read source id state (LinkState.link read source bound id state) := by
  induction bound generalizing state opened id script with
  | zero =>
    have few := sound.visited_le
    omega
  | succ bound ih =>
    by_cases visited : id ∈ state.visited
    · rw [LinkState.link, if_pos (by simpa using visited)]
      exact .visited visited
    · obtain ⟨soundNow, -, visitedNow⟩ := sound.visit read visited listed
      obtain ⟨later, inStore, -⟩ :=
        soundNow.known id (by rw [visitedNow]; exact List.mem_cons_self ..)
      rw [link_unvisited read source bound (by simpa using visited) inStore rfl]
      refine .script visited rfl inStore ?_
      obtain ⟨diagnostics, warned⟩ := foldl_warn (fun fault : IncludeFault =>
        s!"{later.key.render}: {fault.message}") (IncludeHeader.read later.text).faults
          (readScript read id { state with visited := id :: state.visited })
      rw [warned]
      have roomNow : base + source.entries.length < bound +
          (readScript read id { state with visited := id :: state.visited }).visited.length := by
        rw [visitedNow, List.length_cons]
        omega
      exact foldl_follow_followed (fun soundThen inThen roomThen => ih soundThen inThen roomThen)
        later.key later.entries [] (soundNow.warned diagnostics) roomNow

theorem Sound.returnsAll (sound : state.Sound base source opened) {roots : List ScriptId}
    (listed : ∀ root ∈ roots, ∃ script, state.store.get? root = some script)
    (room : base + source.entries.length < bound + state.visited.length) :
    ReturnsAll read source roots state
      (roots.foldl (fun state root => LinkState.link read source bound root state) state) := by
  induction roots generalizing state with
  | nil => exact .nil
  | cons root rest ih =>
    obtain ⟨script, isScript⟩ := listed root (List.mem_cons_self ..)
    have links := sound.link read isScript room
    refine .cons (sound.returns isScript room) (ih links.sound (fun other among => ?_) ?_)
    · obtain ⟨found, isFound⟩ := listed other (List.mem_cons_of_mem _ among)
      obtain ⟨later, isLater, -⟩ := links.advances.grows.kept isFound
      exact ⟨later, isLater⟩
    · exact Nat.lt_of_lt_of_le room (Nat.add_le_add_left links.advances.visited.length_le bound)

end Exists

section Loaded

def Counts (base : Nat) (state : LinkState σ) : Prop := state.store.size = base + state.loaded

variable {base : Nat}

theorem Counts.readScript (counts : state.Counts base) (read : ScriptReader σ) (id : ScriptId) :
    (readScript read id state).Counts base := by
  have size (reading : Reading) : (state.store.setReading id reading).size = state.store.size :=
    List.length_modify ..
  unfold LinkState.readScript
  split
  · exact counts
  · split
    · exact counts
    · exact counts
    · split
      · exact (size _).trans counts
      · exact (size _).trans counts

theorem Counts.fetch (counts : state.Counts base) (source : ScriptSource) (key : ScriptKey) :
    (fetch source key state).2.Counts base := by
  unfold LinkState.fetch
  split
  · exact counts
  · rename_i absent
    dsimp only
    split
    · exact counts
    · rename_i found offered
      rw [ScriptStore.add_of_none absent, Counts, ScriptStore.size, List.length_append]
      exact congrArg (· + 1) counts

theorem Counts.warned {α : Type} (counts : state.Counts base) (message : α → String)
    (items : List α) :
    (items.foldl (fun state item => state.warn (message item)) state).Counts base := by
  obtain ⟨diagnostics, same⟩ := foldl_warn message items state
  rw [same]
  exact counts

theorem Counts.visit (counts : state.Counts base) (read : ScriptReader σ) (id : ScriptId) :
    (LinkState.readScript read id { state with visited := id :: state.visited }).Counts base := by
  have opened : ({ state with visited := id :: state.visited } : LinkState σ).Counts base := counts
  exact opened.readScript read id

mutual

theorem Returns.counts {id : ScriptId} {state after : LinkState σ} :
    Returns read source id state after → state.Counts base → after.Counts base
  | .visited _, counts => counts
  | .unknown _ isOpened _, counts => isOpened ▸ counts.visit read id
  | .script _ isOpened _ followed, counts =>
    Followed.counts followed (Counts.warned (isOpened ▸ counts.visit read id) _ _)

theorem Followed.counts {own : ScriptKey} {entries : List IncludeEntry}
    {reached last : List ScriptId × LinkState σ} :
    Followed read source own entries reached last → reached.2.Counts base → last.2.Counts base
  | .nil, counts => counts
  | .absent fetched rest, counts =>
    Followed.counts rest (congrArg Prod.snd fetched ▸ counts.fetch source _ :)
  | .found fetched returns rest, counts =>
    Followed.counts rest (Returns.counts returns (congrArg Prod.snd fetched ▸ counts.fetch source _ :))

end

theorem ReturnsAll.counts {roots : List ScriptId} (returns : ReturnsAll read source roots state after)
    (counts : state.Counts base) : after.Counts base := by
  induction returns with
  | nil => exact counts
  | cons first _ ih => exact ih (first.counts counts)

end Loaded

end LinkState

namespace ScriptStore

variable {σ : Type} {source : ScriptSource}

def Logs (store : ScriptStore) (log : List ScriptId) : Prop :=
  log.Nodup ∧ ∀ id, id ∈ log ↔ ∃ script, store.get? id = some script ∧ script.reading ≠ .unread

theorem Logs.read {store : ScriptStore} {log : List ScriptId} (logs : store.Logs log) {id : ScriptId}
    {script : Script} (listed : store.get? id = some script) (unread : script.reading = .unread)
    {reading : Reading} (isRead : reading ≠ .unread) :
    (store.setReading id reading).Logs (log ++ [id]) := by
  have new : id ∉ log := fun among => by
    obtain ⟨other, isOther, wasRead⟩ := (logs.2 id).1 among
    obtain rfl := Option.some.inj (listed.symm.trans isOther)
    exact wasRead unread
  refine ⟨List.nodup_append'.2 ⟨logs.1, List.nodup_singleton _, fun other old isNew =>
    new (List.mem_singleton.1 isNew ▸ old)⟩, fun other => ?_⟩
  rw [List.mem_append, List.mem_singleton, logs.2, setReading, get?_modify]
  by_cases same : other = id
  · subst same
    rw [if_pos rfl, listed]
    exact ⟨fun _ => ⟨_, rfl, isRead⟩, fun _ => .inr rfl⟩
  · rw [if_neg same]
    exact ⟨fun either => either.resolve_right same, .inl⟩

theorem Logs.add {store : ScriptStore} {log : List ScriptId} (logs : store.Logs log)
    {script : Script} (unread : script.reading = .unread) :
    Logs ⟨store.scripts ++ [script]⟩ log := by
  refine ⟨logs.1, fun id => ?_⟩
  rw [logs.2]
  constructor
  · rintro ⟨old, listed, wasRead⟩
    exact ⟨old, get?_append_of_some listed, wasRead⟩
  · rintro ⟨other, listed, wasRead⟩
    rcases Nat.lt_or_ge id.index store.scripts.length with old | later
    · rw [get?, List.getElem?_append_left old] at listed
      exact ⟨other, listed, wasRead⟩
    · rw [get?, List.getElem?_append_right later] at listed
      obtain rfl := List.mem_singleton.1 (List.mem_of_getElem? listed)
      exact absurd unread wasRead

theorem logged_mimics (read : ScriptReader σ) (source : ScriptSource) (texts : List String) :
    read.logged.Mimics read Prod.fst source texts fun store reader _ => store.Logs reader.2 where
  reads := fun {store id script reader asked} logs listed _ unread => by
    refine ⟨rfl, logs.read listed unread ?_⟩
    unfold LinkState.verdict
    split <;> exact nofun
  misses := fun logs _ _ => logs
  fetches := fun logs _ _ => logs.add rfl

def Offered (source : ScriptSource) (script : Script) : Prop :=
  ∃ found, source.find? script.key = some found ∧ script.plugin = found.plugin ∧
    script.text = found.text

theorem linkState_offered (store : ScriptStore) (read : ScriptReader σ) (reader : σ)
    (source : ScriptSource) (roots : List ScriptId) :
    ∀ script ∈ (store.linkState read reader source roots).store.scripts.drop store.size,
      Offered source script := by
  -- said by number, so that reading a script is a change at one place
  suffices offered : ∀ (id : ScriptId) script, store.size ≤ id.index →
      (store.linkState read reader source roots).store.get? id = some script →
      Offered source script by
    intro script listed
    obtain ⟨index, isAt⟩ := List.mem_iff_getElem?.1 listed
    rw [List.getElem?_drop] at isAt
    exact offered ⟨store.size + index⟩ script (Nat.le_add_right ..) isAt
  refine List.foldlRecOn (motive := fun state : LinkState σ => ∀ (id : ScriptId) script,
    store.size ≤ id.index → state.store.get? id = some script → Offered source script) roots _
    (fun id script later listed => ?_) fun state kept root _ => ?_
  · exact absurd (List.getElem?_eq_some_iff.1 listed).1 (Nat.not_lt.2 later)
  · refine LinkState.link_keeps (P := fun after => ∀ (id : ScriptId) script,
      store.size ≤ id.index → after.get? id = some script → Offered source script)
      (fun {after id script} reader holds listed _ other found later isFound => ?_)
      (fun {after text entry found} holds _ _ offered other script later isFound => ?_) _ root kept
    · rw [setReading, get?_modify] at isFound
      split at isFound
      · obtain ⟨old, isOld, rfl⟩ := Option.map_eq_some_iff.1 isFound
        exact (holds other old later isOld :)
      · exact holds other found later isFound
    · rcases Nat.lt_or_ge other.index after.scripts.length with old | new
      · rw [get?, List.getElem?_append_left old] at isFound
        exact holds other script later isFound
      · rw [get?, List.getElem?_append_right new] at isFound
        obtain rfl := List.mem_singleton.1 (List.mem_of_getElem? isFound)
        exact ⟨found, offered, rfl, rfl⟩

section Inputs

variable (inputs : List BatchEntry) (read : ScriptReader σ) (reader : σ) (source : ScriptSource)

theorem inputsState_returns : LinkState.ReturnsAll read source (ofInputs inputs).2
    { store := (ofInputs inputs).1, reader } (inputsState inputs read reader source) := by
  refine (LinkState.Sound.init (ofInputs inputs).1 reader source).returnsAll (fun root isRoot => ?_)
    (Nat.lt_succ_self _)
  have inside := mem_ids.1 (ofInputs_roots inputs root isRoot)
  exact ⟨_, List.getElem?_eq_getElem inside⟩

theorem inputsState_counts :
    (inputsState inputs read reader source).Counts (ofInputs inputs).1.size :=
  (inputsState_returns inputs read reader source).counts rfl

theorem take_names_inputsState : (inputsState inputs read reader source).store.names.take
    (ofInputs inputs).1.size = (ofInputs inputs).1.names := by
  have grows := (inputsState_links inputs read reader source).advances.grows
  refine List.ext_getElem? fun index => ?_
  rw [List.getElem?_take]
  split
  · rename_i old
    have listed : (ofInputs inputs).1.get? ⟨index⟩ = some (ofInputs inputs).1.scripts[index] :=
      List.getElem?_eq_getElem old
    obtain ⟨later, isLater, key, -⟩ := grows.kept listed
    have isThere : (inputsState inputs read reader source).store.scripts[index]? = some later := isLater
    rw [names, names, List.getElem?_map, List.getElem?_map, isThere,
      List.getElem?_eq_getElem old, Option.map_some, Option.map_some, key]
  · rename_i outside
    exact (List.getElem?_eq_none (by rw [length_names]; exact Nat.not_lt.1 outside)).symm

theorem logged_linkInputs :
    linkInputs inputs read reader source =
        (linkInputs inputs read.logged (reader, []) source).mapReader Prod.fst ∧
      (linkInputs inputs read.logged (reader, []) source).reader.2.Perm
        (linkInputs inputs read reader source).store.ids := by
  let texts := (inputsState inputs read reader source).store.texts
  have mimics := logged_mimics read source texts
  have start : (ofInputs inputs).1.Logs [] := by
    refine ⟨List.nodup_nil, fun id => ⟨nofun, ?_⟩⟩
    rintro ⟨script, listed, wasRead⟩
    exact absurd (ofInputs_unread inputs script (List.mem_of_getElem? listed)) wasRead
  have fits : ((ofInputs inputs).1.linkState read (Prod.fst (reader, ([] : List ScriptId))) source
      (ofInputs inputs).2).store.texts ⊆ texts := List.Subset.refl texts
  obtain ⟨logs, sameState⟩ := linkState_mimics mimics start fits
  have sameReader : (linkInputs inputs read.logged (reader, []) source).reader =
      (inputsState inputs read.logged (reader, []) source).reader := rfl
  have sameStore : (inputsState inputs read.logged (reader, []) source).store =
      (inputsState inputs read reader source).store := congrArg LinkState.store sameState.symm
  have sameLinked : (ofInputs inputs).1.link read (Prod.fst (reader, ([] : List ScriptId))) source
      (ofInputs inputs).2 = ((ofInputs inputs).1.link read.logged (reader, []) source
        (ofInputs inputs).2).mapReader Prod.fst := link_mimics mimics start fits
  refine ⟨sameLinked, (List.perm_ext_iff_of_nodup logs.1 (ids_nodup _)).2
    fun id => ((sameReader ▸ logs.2 id :)).trans ?_⟩
  rw [mem_ids, ← length_names, (linkInputs_alike inputs read reader source).names, length_names]
  constructor
  · rintro ⟨script, listed, -⟩
    exact sameStore ▸ (List.getElem?_eq_some_iff.1 listed).1
  · intro inside
    obtain ⟨script, listed, wasRead⟩ := (inputsState_links inputs read reader source).sound.known id
      (visited_inputsState inputs read reader source (mem_ids.2 inside))
    exact ⟨script, (congrArg (·.get? id) sameStore).trans listed, wasRead⟩

end Inputs

/-- Linking a batch with any source returns. Every script of the linked batch was read exactly once, so
that it has either a tree or faults; what was fetched stands after the batch, has names of its own, is
what the source offers, and is counted. -/
theorem linkInputs_once (inputs : List BatchEntry) (read : ScriptReader σ) (reader : σ)
    (source : ScriptSource) :
    let batch := (ofInputs inputs).1
    let linked := linkInputs inputs read reader source
    let logged := linkInputs inputs read.logged (reader, []) source
    let fetched := linked.store.scripts.drop batch.size
    LinkState.ReturnsAll read source (ofInputs inputs).2 { store := batch, reader }
        (inputsState inputs read reader source) ∧
      (linked = logged.mapReader Prod.fst ∧ logged.reader.2.Perm linked.store.ids) ∧
      (linked.store.names = batch.names ++ fetched.map (·.key.lookup) ∧ linked.store.names.Nodup ∧
        ∀ script ∈ fetched, Offered source script) ∧
      linked.loaded = fetched.length ∧
      ∀ script ∈ linked.store.scripts,
        Xor (∃ draft, script.draft? = some draft) (∃ faults, script.faults? = some faults) := by
  intro batch linked logged fetched
  have sameNames : linked.store.names = (inputsState inputs read reader source).store.names :=
    (linkInputs_alike inputs read reader source).names
  have fetchedNames : fetched.map (·.key.lookup) = linked.store.names.drop batch.size :=
    List.map_drop
  refine ⟨inputsState_returns inputs read reader source, logged_linkInputs inputs read reader source,
    ⟨?_, sameNames ▸ inputsState_nodup inputs read reader source, fun script listed => ?_⟩, ?_,
    fun script listed => ?_⟩
  · rw [fetchedNames, ← take_names_inputsState inputs read reader source, ← sameNames,
      List.take_append_drop]
  · obtain ⟨index, isAt⟩ := List.mem_iff_getElem?.1 listed
    rw [List.getElem?_drop] at isAt
    have isLinked : linked.store.get? ⟨batch.size + index⟩ = some script := isAt
    rw [get?_linkInputs] at isLinked
    obtain ⟨old, isOld, rfl⟩ := Option.map_eq_some_iff.1 isLinked
    have isFetched : old ∈ (inputsState inputs read reader source).store.scripts.drop batch.size :=
      List.mem_iff_getElem?.2 ⟨index, by rw [List.getElem?_drop]; exact isOld⟩
    exact (linkState_offered batch read reader source _ old isFetched :)
  · have counts := inputsState_counts inputs read reader source
    have sameLoaded : linked.loaded = (inputsState inputs read reader source).loaded := rfl
    rw [LinkState.Counts, ← length_names, ← sameNames, length_names, ScriptStore.size] at counts
    rw [List.length_drop, counts, sameLoaded, Nat.add_sub_cancel_left]
  · obtain ⟨index, isAt⟩ := List.mem_iff_getElem?.1 listed
    have found : linked.store.get? ⟨index⟩ = some script := isAt
    have wasRead := wasRead_linkInputs inputs read reader source found
    rw [Script.draft?, Script.faults?]
    cases reading : script.reading with
    | unread => exact absurd reading wasRead
    | read draft => exact .inl ⟨⟨draft, rfl⟩, by simp⟩
    | faulty faults => exact .inr ⟨⟨faults, rfl⟩, by simp⟩

end ScriptStore

end ScriptMigration
