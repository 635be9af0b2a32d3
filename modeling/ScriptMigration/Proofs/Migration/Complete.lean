import ScriptMigration.Proofs.Migration.History

/-! No script is lost. The store of a linked batch holds the scripts of the batch and those that were
fetched, each once; and a migration that is not stopped has each of them either among its results, in
the order of linking, or among those that could not be read. -/
namespace ScriptMigration

def ScriptSource.offered (source : ScriptSource) (keys : List ScriptKey) : List ScriptKey :=
  keys.filter fun key => (source.find? key).isSome

namespace ScriptStore

theorem filterMap_get?_ids (store : ScriptStore) : store.ids.filterMap store.get? = store.scripts := by
  have places : store.ids.map store.get? = store.scripts.map some := by
    refine List.ext_getElem? fun index => ?_
    rw [ids, List.map_map, List.getElem?_map, List.getElem?_map, size]
    rcases Nat.lt_or_ge index store.scripts.length with inside | outside
    · rw [List.getElem?_range inside, List.getElem?_eq_getElem inside]
      exact congrArg some (List.getElem?_eq_getElem inside)
    · rw [List.getElem?_eq_none (by simpa using outside), List.getElem?_eq_none outside]
      rfl
  have whole := congrArg (List.filterMap id) places
  rw [List.filterMap_map, List.filterMap_map] at whole
  exact whole.trans List.filterMap_some

def Gathered {σ : Type} (first : List FoldedName) (source : ScriptSource) (store : ScriptStore) (_ : σ)
    (asked : List ScriptKey) : Prop :=
  store.names = first ++ (source.offered asked).map (·.lookup)

theorem gathers {σ : Type} (read : ScriptReader σ) (first : List FoldedName) (source : ScriptSource)
    (texts : List String) : read.Mimics read id source texts (Gathered first source) := by
  refine ⟨fun {store id script reader asked} gathered _ _ _ => ⟨rfl, ?_⟩,
    fun {store reader asked key} gathered _ missing => ?_,
    fun {store reader asked key found} gathered _ offered => ?_⟩
  · have names : (store.setReading id (LinkState.verdict read id script reader)).names = store.names :=
      names_modify store id fun _ => rfl
    exact names.trans gathered
  · have same : source.offered (asked ++ [key]) = source.offered asked := by
      simp [ScriptSource.offered, missing]
    rw [Gathered, same]
    exact gathered
  · have more : source.offered (asked ++ [key]) = source.offered asked ++ [key] := by
      simp [ScriptSource.offered, offered]
    rw [Gathered, more, List.map_append, ← List.append_assoc, ← gathered, names, List.map_append]
    rfl

section Linked

variable {σ : Type} (inputs : List BatchEntry) (read : ScriptReader σ) (reader : σ)
  (source : ScriptSource)

theorem names_linkInputs : (linkInputs inputs read reader source).store.names =
    (inputs.map (·.key.lookup)).eraseDups ++
      (source.offered (linkInputs inputs read reader source).asked).map (·.lookup) := by
  have start : Gathered (ofInputs inputs).1.names source (ofInputs inputs).1 reader [] :=
    (List.append_nil _).symm
  have gathered := (linkState_mimics (gathers read _ source _) start
    (List.Subset.refl (inputsState inputs read reader source).store.texts)).1
  rw [(linkInputs_alike inputs read reader source).names, ← (ofInputs_holds inputs).names]
  exact gathered

theorem linkInputs_nodup : (linkInputs inputs read reader source).store.names.Nodup := by
  rw [(linkInputs_alike inputs read reader source).names]
  exact inputsState_nodup inputs read reader source

theorem order_linkInputs_perm : (linkInputs inputs read reader source).order.Perm
    ((linkInputs inputs read reader source).store.ids.filter
      (linkInputs inputs read reader source).store.accepts) := by
  have sound := (inputsState_links inputs read reader source).sound
  have once := LinkState.graph_scripts_nodup sound
  have size : (linkInputs inputs read reader source).store.ids =
      (inputsState inputs read reader source).store.ids := by
    rw [ids, ids, ← length_names, ← length_names, (linkInputs_alike inputs read reader source).names]
  rw [size]
  refine List.Perm.filter _ ((IncludeGraph.order_perm once).trans ?_)
  refine (List.perm_ext_iff_of_nodup once ?_).2 fun id => ?_
  · exact (List.nodup_range).map fun left right same => ScriptId.mk.inj same
  · refine (LinkState.mem_graph_scripts sound).trans ⟨fun visited => ?_, visited_inputsState inputs read reader source⟩
    obtain ⟨script, listed, -⟩ := sound.known id visited
    exact mem_ids_of_get? listed

theorem scripts_in_order : ((linkInputs inputs read reader source).order.filterMap
    (linkInputs inputs read reader source).store.get?).Perm
      ((linkInputs inputs read reader source).store.scripts.filter Script.isValid) := by
  refine ((order_linkInputs_perm inputs read reader source).filterMap _).trans ?_
  rw [← filterMap_get?_ids, List.filterMap_filter, List.filter_filterMap]
  refine List.Perm.of_eq (List.filterMap_congr fun id _ => ?_)
  rw [accepts]
  cases (linkInputs inputs read reader source).store.get? id with
  | none => rfl
  | some script => rfl

theorem order_linkInputs_pairwise : (linkInputs inputs read reader source).order.Pairwise
    fun earlier later => ∀ first second,
      (linkInputs inputs read reader source).store.get? earlier = some first →
      (linkInputs inputs read reader source).store.get? later = some second →
      later ∈ first.dependencies → earlier ∈ second.dependencies := by
  have sound := (inputsState_links inputs read reader source).sound
  have once := LinkState.graph_scripts_nodup sound
  have apart : (inputsState inputs read reader source).graph.order.Nodup :=
    (IncludeGraph.order_perm once).nodup_iff.2 once
  refine ((IncludeGraph.order_pairwise once).and apart).imp_of_mem ?_ |>.filter _
  intro earlier later isEarlier isLater ⟨back, differ⟩ first second isFirst isSecond depends
  have firstInside := (IncludeGraph.order_perm once).subset isEarlier
  have secondInside := (IncludeGraph.order_perm once).subset isLater
  rw [get?_linkInputs] at isFirst isSecond
  obtain ⟨_, -, rfl⟩ := Option.map_eq_some_iff.1 isFirst
  obtain ⟨_, -, rfl⟩ := Option.map_eq_some_iff.1 isSecond
  have reaches := (IncludeGraph.mem_dependencies firstInside
    (LinkState.targets_mem sound firstInside) (Ne.symm differ)).1 depends
  exact (IncludeGraph.mem_dependencies secondInside (LinkState.targets_mem sound secondInside)
    differ).2 (back reaches)

theorem mem_order_of_depends {id other : ScriptId} {script : Script}
    (inside : id ∈ (linkInputs inputs read reader source).order)
    (listed : (linkInputs inputs read reader source).store.get? id = some script)
    (depends : other ∈ script.dependencies) :
    other ∈ (linkInputs inputs read reader source).order := by
  have sound := (inputsState_links inputs read reader source).sound
  have once := LinkState.graph_scripts_nodup sound
  obtain ⟨isOrdered, accepted⟩ := List.mem_filter.1 inside
  have lies := (IncludeGraph.order_perm once).subset isOrdered
  rw [get?_linkInputs] at listed
  obtain ⟨_, -, rfl⟩ := Option.map_eq_some_iff.1 listed
  have known := LinkState.targets_mem sound lies
  have target := IncludeGraph.dependencies_mem lies known other depends
  refine List.mem_filter.2 ⟨(IncludeGraph.order_perm once).symm.subset target, ?_⟩
  by_cases same : other = id
  · rw [same]
    exact accepted
  · have reaches := (IncludeGraph.mem_dependencies lies known same).1 depends
    have alike := (linkInputs_alike inputs read reader source).accepts
    have acceptedBefore : (inputsState inputs read reader source).store.accepts id := by
      rw [← alike]
      exact accepted
    have reached := accepts_of_reached ((LinkState.graph_reaches sound lies).1 reaches) acceptedBefore
    rw [← alike] at reached
    exact reached

end Linked

end ScriptStore

namespace Migrator

variable (migrator : Migrator) {σ : Type} {linked : Linked σ} {inputs : List BatchEntry}
  {read : ScriptReader σ} {reader : σ} {source : ScriptSource}
  (isLinked : ScriptStore.linkInputs inputs read reader source = linked)
  (sources : List (ScriptId × ParsedModule))

omit isLinked in
theorem failed_names (linked : Linked σ) :
    (migrator.finish (migrator.resolvedRun linked) linked.order sources).failed.map (·.1.lookup) =
      (linked.store.scripts.filter (!·.isValid)).map (·.key.lookup) := by
  rw [migrator.finish_failed _ _ _ (migrator.resolvedRun_redrafted linked), List.map_filterMap,
    ← List.filterMap_eq_map, List.filterMap_filter]
  refine List.filterMap_congr fun script _ => ?_
  rw [Script.isValid]
  cases script.faults? with
  | none => rfl
  | some faults => rfl

include isLinked

theorem scripts_names :
    (migrator.finish (migrator.resolvedRun linked) linked.order sources).scripts.map (·.key.lookup) =
      (linked.order.filterMap linked.store.get?).map (·.key.lookup) := by
  obtain ⟨ids, tells⟩ := migrator.finish_resolvedRun linked isLinked sources
  have named : ∀ result ∈ (migrator.finish (migrator.resolvedRun linked) linked.order
      sources).scripts, some result.key.lookup =
        (linked.store.get? result.id).map (·.key.lookup) := by
    intro result listed
    obtain ⟨script, isScript, key, -⟩ := tells result listed
    rw [isScript, key, Option.map_some]
  rw [List.map_filterMap]
  conv => rhs; rw [← ids]
  rw [List.filterMap_map, ← List.filterMap_eq_map]
  exact List.filterMap_congr named

theorem finish_names_perm :
    ((migrator.finish (migrator.resolvedRun linked) linked.order sources).scripts.map (·.key.lookup) ++
      (migrator.finish (migrator.resolvedRun linked) linked.order sources).failed.map
        (·.1.lookup)).Perm linked.store.names := by
  rw [migrator.scripts_names isLinked sources, migrator.failed_names sources]
  have read := ScriptStore.scripts_in_order inputs read reader source
  rw [isLinked] at read
  refine ((read.map (·.key.lookup)).append_right _).trans ?_
  rw [← List.map_append]
  exact (List.filter_append_perm ..).map _

theorem mem_dependencies_iff {earlier later : ScriptResult} (tells : Tells sources linked.store earlier)
    {first second : Script} (isFirst : linked.store.get? earlier.id = some first)
    (isSecond : linked.store.get? later.id = some second) (key : later.key = second.key) :
    later.key ∈ earlier.dependencies ↔ later.id ∈ first.dependencies := by
  obtain ⟨script, isScript, -, dependencies, -⟩ := tells
  obtain rfl := Option.some.inj (isScript.symm.trans isFirst)
  rw [dependencies, List.mem_filterMap]
  constructor
  · rintro ⟨id, depends, isKey⟩
    obtain ⟨other, isOther, same⟩ := Option.map_eq_some_iff.1 isKey
    have once := ScriptStore.linkInputs_nodup inputs read reader source
    rw [isLinked] at once
    have named : linked.store.nameOf? id = linked.store.nameOf? later.id := by
      rw [ScriptStore.nameOf?_of_get? isOther, ScriptStore.nameOf?_of_get? isSecond, same, key]
    rw [ScriptStore.nameOf?_of_get? isSecond] at named
    rw [← ScriptStore.nameOf?_inj once named (ScriptStore.nameOf?_of_get? isSecond)]
    exact depends
  · intro depends
    exact ⟨later.id, depends, by rw [isSecond, key, Option.map_some]⟩

theorem finish_pairwise :
    (migrator.finish (migrator.resolvedRun linked) linked.order sources).scripts.Pairwise
      fun earlier later => later.key ∈ earlier.dependencies → earlier.key ∈ later.dependencies := by
  obtain ⟨ids, tells⟩ := migrator.finish_resolvedRun linked isLinked sources
  have ordered := ScriptStore.order_linkInputs_pairwise inputs read reader source
  rw [isLinked, ← ids, List.pairwise_map] at ordered
  refine ordered.imp_of_mem fun {earlier later} isEarlier isLater follows depends => ?_
  obtain ⟨first, isFirst, firstKey, -⟩ := tells earlier isEarlier
  obtain ⟨second, isSecond, secondKey, -⟩ := tells later isLater
  rw [mem_dependencies_iff isLinked sources (tells earlier isEarlier) isFirst isSecond secondKey]
    at depends
  rw [mem_dependencies_iff isLinked sources (tells later isLater) isSecond isFirst firstKey]
  exact follows first second isFirst isSecond depends

theorem finish_dependencies {result : ScriptResult}
    (listed : result ∈ (migrator.finish (migrator.resolvedRun linked) linked.order sources).scripts)
    {key : ScriptKey} (depends : key ∈ result.dependencies) :
    ∃ other ∈ (migrator.finish (migrator.resolvedRun linked) linked.order sources).scripts,
      other.key = key := by
  obtain ⟨ids, tells⟩ := migrator.finish_resolvedRun linked isLinked sources
  obtain ⟨script, isScript, -, dependencies, -⟩ := tells result listed
  rw [dependencies, List.mem_filterMap] at depends
  obtain ⟨id, among, isKey⟩ := depends
  obtain ⟨target, isTarget, rfl⟩ := Option.map_eq_some_iff.1 isKey
  have inside : result.id ∈ linked.order := ids ▸ List.mem_map_of_mem listed
  subst isLinked
  have also := ScriptStore.mem_order_of_depends inputs read reader source inside isScript among
  rw [← ids] at also
  obtain ⟨other, isOther, rfl⟩ := List.mem_map.1 also
  obtain ⟨found, isFound, otherKey, -⟩ := tells other isOther
  obtain rfl := Option.some.inj (isFound.symm.trans isTarget)
  exact ⟨other, isOther, otherKey⟩

end Migrator

namespace MigrationSession

variable {symbols : SymbolTable} {options : MigrationOptions} {session : MigrationSession}
  {history : List SessionEvent} {inputs : List BatchEntry} {source : ScriptSource} {stop : Interrupt}

/-- The faults of a script that could not be read are those of its text. -/
theorem Sound.failed {texts : List String} (sound : session.Sound symbols options texts)
    (apart : Digest.TellsApart texts) (known : textsOf inputs source ⊆ texts) {key : ScriptKey}
    {faults : List SyntaxFault}
    (listed : (key, faults) ∈ (session.migrator.linkedBatch session.holds inputs
      source).store.scripts.filterMap fun script =>
        script.faults?.map fun faults => (script.key, faults)) :
    ∃ text, BatchEntry.textOf? inputs source key.lookup = some text ∧
      parseModule text key.name = .error faults := by
  have same : (session.migrator.linkedBatch session.holds inputs source).store =
      (ScriptStore.linkInputs inputs .noting [] source).store :=
    congrArg Linked.store (ScriptStore.linkInputs_caching apart known sound.faithful session.holds).1
  rw [same] at listed
  obtain ⟨script, inside, isEntry⟩ := List.mem_filterMap.1 listed
  obtain ⟨found, isFaulty, isPair⟩ := Option.map_eq_some_iff.1 isEntry
  obtain ⟨rfl, rfl⟩ := Prod.mk.inj isPair
  obtain ⟨index, isAt⟩ := List.mem_iff_getElem?.1 inside
  have isScript : (ScriptStore.linkInputs inputs .noting [] source).store.get? ⟨index⟩ =
    some script := isAt
  refine ⟨script.text, ScriptStore.text_linkInputs inputs [] source ScriptReader.noting_honest
    isScript, ?_⟩
  rw [Script.faults?, (ScriptStore.linkInputs_noting isScript).1, Script.readAnew] at isFaulty
  cases parsed : parseModule script.text script.key.name with
  | ok module =>
    rw [parsed] at isFaulty
    cases isFaulty
  | error others =>
    rw [parsed] at isFaulty
    rw [Option.some.inj isFaulty]

/-- A migration that is not stopped has every script of the batch and every one that was fetched once,
among the results or among those that could not be read; the results are in the order of linking, so
that each follows what it depends on and what does not depend on it. If no two texts of the session have
one digest, the results are those of the texts that can be read. -/
theorem migrate_complete (isSession : ofHistory symbols options history = session)
    (runs : ∀ step, (session.migrate stop inputs source).1.result ≠ .error (.cancelled step)) :
    ∃ migration, (session.migrate stop inputs source).1.result = .ok migration ∧
      (migration.scripts.map (·.key.lookup) ++ migration.failed.map (·.1.lookup)).Nodup ∧
      (migration.scripts.map (·.key.lookup) ++ migration.failed.map (·.1.lookup)).Perm
        ((inputs.map (·.key.lookup)).eraseDups ++
          (source.offered (session.migrate stop inputs source).1.progress.asked).map (·.lookup)) ∧
      migration.scripts.map (·.id) =
        (session.migrator.linkedBatch session.holds inputs source).order ∧
      (migration.scripts.Pairwise fun earlier later =>
        later.key ∈ earlier.dependencies → earlier.key ∈ later.dependencies) ∧
      (∀ result ∈ migration.scripts, ∀ key ∈ result.dependencies,
        ∃ other ∈ migration.scripts, other.key = key) ∧
      (Digest.TellsApart (history.flatMap SessionEvent.texts ++ textsOf inputs source) →
        (∀ result ∈ migration.scripts, Migrator.Pristine inputs source result) ∧
        ∀ key faults, (key, faults) ∈ migration.failed →
          ∃ text, BatchEntry.textOf? inputs source key.lookup = some text ∧
            parseModule text key.name = .error faults) := by
  obtain ⟨isOk, asked⟩ := session.migrator.migrate_of_runs (session.interrupt stop) session.holds
    inputs source runs
  have isLinked : ScriptStore.linkInputs inputs (CachingReader.read session.holds)
      { cache := session.migrator.cache } source =
    session.migrator.linkedBatch session.holds inputs source := rfl
  have names := session.migrator.finish_names_perm isLinked
    (session.migrator.linkedBatch session.holds inputs source).reader.sources
  have once : (session.migrator.linkedBatch session.holds inputs source).store.names.Nodup :=
    ScriptStore.linkInputs_nodup ..
  have gathered := ScriptStore.names_linkInputs inputs (CachingReader.read session.holds)
    { cache := session.migrator.cache } source
  rw [isLinked, ← asked] at gathered
  refine ⟨_, isOk, names.nodup_iff.2 once, gathered ▸ names,
    (session.migrator.finish_resolvedRun _ isLinked _).1, session.migrator.finish_pairwise isLinked _,
    fun result listed key depends => session.migrator.finish_dependencies isLinked _ listed depends,
    fun apart => ?_⟩
  have sound := ofHistory_sound apart (List.subset_append_left ..) isSession
  have known := List.subset_append_right (history.flatMap SessionEvent.texts) (textsOf inputs source)
  refine ⟨fun result listed => sound.pristine apart known isOk listed, fun key faults listed => ?_⟩
  rw [session.migrator.finish_failed _ _ _ (session.migrator.resolvedRun_redrafted _)] at listed
  exact sound.failed apart known listed

theorem migrate_complete_shared : ∃ session migration,
    ofHistory .standard {} sharedHistory = session ∧
    (∀ step, (session.migrate (fun _ => false) sharedBatch sharedSource).1.result ≠
      .error (.cancelled step)) ∧
    (session.migrate (fun _ => false) sharedBatch sharedSource).1.result = .ok migration ∧
    (migration.scripts.map (·.key.lookup) ++ migration.failed.map (·.1.lookup)).Nodup ∧
    (migration.scripts.map (·.key.lookup) ++ migration.failed.map (·.1.lookup)).Perm
      ((sharedBatch.map (·.key.lookup)).eraseDups ++ (sharedSource.offered
        (session.migrate (fun _ => false) sharedBatch sharedSource).1.progress.asked).map (·.lookup)) ∧
    ∀ result ∈ migration.scripts, Migrator.Pristine sharedBatch sharedSource result := by
  obtain ⟨found, isOk⟩ := (ofHistory .standard {} sharedHistory).exists_migration rfl (fun _ => rfl)
    sharedBatch sharedSource
  have runs : ∀ step, ((ofHistory .standard {} sharedHistory).migrate (fun _ => false) sharedBatch
      sharedSource).1.result ≠ .error (.cancelled step) := by
    intro step stopped
    exact nomatch isOk.symm.trans stopped
  obtain ⟨migration, isMigration, once, names, -, -, -, pristine⟩ := migrate_complete rfl runs
  exact ⟨_, migration, rfl, runs, isMigration, once, names, (pristine sharedHistory_apart).1⟩

def collidingBatch : List BatchEntry :=
  [{ key := ⟨"A", "M"⟩, text := "'commentlnvdakyo" }, { key := ⟨"B", "M"⟩, text := ")'brokenuxpbephl" }]

/-- A text that cannot be read has a result if its digest is that of one that can. -/
theorem migrate_colliding : ∃ migration,
    ((unused .standard {} false).migrate (fun _ => false) collidingBatch {}).1.result = .ok migration ∧
    (∃ result ∈ migration.scripts, result.key = ⟨"B", "M"⟩) ∧
    BatchEntry.textOf? collidingBatch {} (ScriptKey.lookup ⟨"B", "M"⟩) = some ")'brokenuxpbephl" ∧
    (parseModule ")'brokenuxpbephl" "M").toOption = none := by
  obtain ⟨found, isOk⟩ := (unused .standard {} false).exists_migration rfl (fun _ => rfl)
    collidingBatch {}
  obtain ⟨isMigration, -⟩ := Migrator.migrate_of_runs _ _ _ _ _ fun step stopped =>
    nomatch isOk.symm.trans stopped
  refine ⟨_, isMigration, ?_, by decide +kernel, by decide +kernel⟩
  have isLinked : ScriptStore.linkInputs collidingBatch
      (CachingReader.read (unused .standard {} false).holds) { cache := {} } {} =
    (unused .standard {} false).migrator.linkedBatch (unused .standard {} false).holds
      collidingBatch {} := rfl
  obtain ⟨ids, tells⟩ := Migrator.finish_resolvedRun _ _ isLinked _
  have inside : (⟨1⟩ : ScriptId) ∈ (ScriptStore.linkInputs collidingBatch
      (CachingReader.read (unused .standard {} false).holds) { cache := {} } {}).order := by
    refine (ScriptStore.order_linkInputs_perm ..).symm.subset (List.mem_filter.2 ⟨?_, ?_⟩)
    · rw [ScriptStore.mem_ids, ← ScriptStore.length_names, (ScriptStore.linkInputs_alike ..).names]
      decide +kernel
    · rw [(ScriptStore.linkInputs_alike ..).accepts]
      decide +kernel
  rw [isLinked, ← ids] at inside
  obtain ⟨result, listed, isSecond⟩ := List.mem_map.1 inside
  refine ⟨result, listed, ?_⟩
  obtain ⟨script, isScript, key, -⟩ := tells result listed
  rw [key]
  rw [isSecond, ← isLinked, ScriptStore.get?_linkInputs] at isScript
  have keys := congrArg (Option.map Script.key) isScript
  rw [Option.map_map] at keys
  have second : ((ScriptStore.inputsState collidingBatch (CachingReader.read
      (unused .standard {} false).holds) { cache := {} } {}).store.get? ⟨1⟩).map Script.key =
    some ⟨"B", "M"⟩ := by decide +kernel
  exact Option.some.inj (keys.symm.trans second)

end MigrationSession

end ScriptMigration
