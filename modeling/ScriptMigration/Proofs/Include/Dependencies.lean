import ScriptMigration.Proofs.Include.Names

/-! What scripts depend on. A script depends once on each script that its includes lead to, on its own
includes first; and which these are follows from the batch and the source, whatever the order in
which the batch is linked. -/
namespace ScriptMigration

open Relation (ReflTransGen TransGen)

namespace IncludeGraph

variable {graph : IncludeGraph} {script other : ScriptId}

theorem reach_nodup (graph : IncludeGraph) (script : ScriptId) : (graph.reach script).Nodup := by
  obtain ⟨steps, after, explores⟩ := exists_explores graph graph.targets [script] []
  rw [reach_eq explores]
  exact explores.entered_new.1

theorem dependencies_nodup (once : (graph.targets script).Nodup) :
    (graph.dependencies script).Nodup := by
  refine List.nodup_append'.2 ⟨once, (graph.reach_nodup script).filter _, fun target direct rest => ?_⟩
  have apart := (List.mem_filter.1 rest).2
  simp [direct] at apart

section Known

variable (inside : script ∈ graph.scripts)
  (known : ∀ target ∈ graph.targets script, target ∈ graph.scripts)

include inside known

theorem dependencies_mem : ∀ target ∈ graph.dependencies script, target ∈ graph.scripts := by
  intro target depends
  rcases List.mem_append.1 depends with direct | rest
  · exact known target direct
  · exact ((mem_reach inside target).1 (List.mem_filter.1 rest).1).mem inside

theorem mem_dependencies (differs : other ≠ script) :
    other ∈ graph.dependencies script ↔ graph.Reaches script other := by
  rw [dependencies, List.mem_append, List.mem_filter, mem_reach inside]
  refine ⟨?_, fun reaches => ?_⟩
  · rintro (direct | ⟨reaches, -⟩)
    · exact .single ⟨direct, known other direct⟩
    · exact reaches
  · by_cases direct : other ∈ graph.targets script
    · exact .inl direct
    · exact .inr ⟨reaches, by simp [differs, direct]⟩

end Known

structure Drawn (graph other : IncludeGraph) (f : ScriptId → ScriptId) : Prop where
  inside : ∀ script ∈ graph.scripts, f script ∈ other.scripts
  apart : ∀ left ∈ graph.scripts, ∀ right ∈ graph.scripts, f left = f right → left = right
  known : ∀ script ∈ graph.scripts, ∀ target ∈ graph.targets script, target ∈ graph.scripts
  targets : ∀ script ∈ graph.scripts, other.targets (f script) = (graph.targets script).map f

namespace Drawn

variable {drawing : IncludeGraph} {f : ScriptId → ScriptId} (drawn : Drawn graph drawing f)

include drawn

theorem mem_map_iff {scripts : List ScriptId} (listed : ∀ entry ∈ scripts, entry ∈ graph.scripts)
    (inside : script ∈ graph.scripts) : f script ∈ scripts.map f ↔ script ∈ scripts := by
  refine ⟨fun among => ?_, fun among => List.mem_map_of_mem among⟩
  obtain ⟨entry, isEntry, same⟩ := List.mem_map.1 among
  exact drawn.apart entry (listed entry isEntry) script inside same ▸ isEntry

theorem explores {todo seen after : List ScriptId} {steps : List WalkStep}
    (explores : Explores graph graph.targets todo seen steps after)
    (listed : ∀ entry ∈ todo, entry ∈ graph.scripts) (old : ∀ entry ∈ seen, entry ∈ graph.scripts) :
    ∃ drawnSteps, Explores drawing drawing.targets (todo.map f) (seen.map f) drawnSteps
      (after.map f) ∧ entered drawnSteps = (entered steps).map f := by
  induction explores with
  | done => exact ⟨[], .done, rfl⟩
  | @skip script todo seen after steps known _ ih =>
    have inside := listed script (List.mem_cons_self ..)
    obtain ⟨drawnSteps, rest, same⟩ := ih
      (fun entry later => listed entry (List.mem_cons_of_mem _ later)) old
    refine ⟨drawnSteps, .skip (fun new => known ⟨inside, fun isSeen => ?_⟩) rest, same⟩
    exact new.2 (List.mem_map_of_mem isSeen)
  | @enter script todo seen between after inner outer inside unseen below _ ihBelow ihRest =>
    have oldBelow : ∀ entry ∈ script :: seen, entry ∈ graph.scripts := by
      rintro entry (_ | ⟨_, isSeen⟩)
      · exact inside
      · exact old entry isSeen
    have oldRest : ∀ entry ∈ between, entry ∈ graph.scripts := by
      intro entry isSeen
      rcases below.mem_after.1 isSeen with before | isEntered
      · exact oldBelow entry before
      · exact (below.entered_new.2 entry isEntered).1
    obtain ⟨drawnInner, drawnBelow, sameInner⟩ := ihBelow (drawn.known script inside) oldBelow
    obtain ⟨drawnOuter, drawnRest, sameOuter⟩ := ihRest
      (fun entry later => listed entry (List.mem_cons_of_mem _ later)) oldRest
    rw [← drawn.targets script inside] at drawnBelow
    refine ⟨_, .enter (drawn.inside script inside) (fun isSeen => unseen ?_) drawnBelow drawnRest, ?_⟩
    · exact (drawn.mem_map_iff old inside).1 isSeen
    · rw [entered_visit, entered_visit, sameInner, sameOuter, List.map_cons, List.map_append]

theorem reach (inside : script ∈ graph.scripts) :
    drawing.reach (f script) = (graph.reach script).map f := by
  obtain ⟨steps, after, explored⟩ := exists_explores graph graph.targets [script] []
  obtain ⟨drawnSteps, drawnExplored, same⟩ := drawn.explores explored
    (fun entry listed => List.mem_singleton.1 listed ▸ inside)
    fun _ listed => absurd listed List.not_mem_nil
  rw [reach_eq explored, reach_eq drawnExplored, same]

theorem dependencies (inside : script ∈ graph.scripts) :
    drawing.dependencies (f script) = (graph.dependencies script).map f := by
  unfold IncludeGraph.dependencies
  dsimp only
  rw [drawn.targets script inside, drawn.reach inside, List.map_append, List.filter_map]
  refine congrArg _ (congrArg (List.map f) (List.filter_congr fun target reached => ?_))
  have lies := ((mem_reach inside target).1 reached).mem inside
  have same : f target = f script ↔ target = script :=
    ⟨drawn.apart target lies script inside, fun same => same ▸ rfl⟩
  have direct := drawn.mem_map_iff (drawn.known script inside) lies
  rw [Function.comp_apply, Bool.eq_iff_iff]
  simp only [Bool.and_eq_true, bne_iff_ne, ne_eq, same, Bool.not_eq_true', List.contains_iff_mem,
    ← Bool.not_eq_true, direct]

end Drawn

end IncludeGraph

theorem Script.entries_names (script : Script) :
    (script.entries.map (·.key.lookup)).filter (· != script.key.lookup) =
      (headerNames script.text).filter (· != script.key.lookup) := by
  rw [Script.entries, headerNames, List.filter_map, List.filter_map, List.filter_filter]
  refine congrArg _ (List.filter_congr fun entry _ => ?_)
  cases same : entry.key.same script.key with
  | false => simp
  | true => simp [ScriptKey.lookup_eq_of_same same]

namespace ScriptStore

variable {store after other : ScriptStore} {source : ScriptSource}

theorem find?_of_nameOf? (once : store.names.Nodup) {key : ScriptKey} {id : ScriptId}
    (named : store.nameOf? id = some key.lookup) : store.find? key = some id := by
  cases found : store.find? key with
  | none =>
    rw [← getElem?_names] at named
    exact absurd (List.mem_of_getElem? named) (find?_eq_none_iff.1 found)
  | some target => rw [nameOf?_inj once (nameOf?_of_find? found) named]

theorem eq_of_map_nameOf? (once : store.names.Nodup) {left right : List ScriptId}
    (named : ∀ id ∈ left, (store.nameOf? id).isSome)
    (same : left.map store.nameOf? = right.map store.nameOf?) : left = right := by
  induction left generalizing right with
  | nil => exact (List.map_eq_nil_iff.1 same.symm).symm
  | cons id rest ih =>
    cases right with
    | nil => exact nomatch same
    | cons target others =>
      obtain ⟨head, tail⟩ := List.cons.inj same
      obtain ⟨name, isName⟩ := Option.isSome_iff_exists.1 (named id (List.mem_cons_self ..))
      rw [nameOf?_inj once isName (head ▸ isName),
        ih (fun entry among => named entry (List.mem_cons_of_mem _ among)) tail]

namespace Faithful

theorem textOf?_eq_none (faithful : Faithful store source after) {key : ScriptKey}
    (absent : after.find? key = none) (unoffered : source.find? key = none) :
    store.textOf? source key.lookup = none := by
  have none : store.scripts.find? (·.key.lookup == key.lookup) = none := by
    refine List.find?_eq_none.2 fun script listed same => ?_
    refine find?_eq_none_iff.1 absent (faithful.grown _ (List.mem_map.2 ⟨script, listed, ?_⟩))
    simpa using same
  rw [textOf?, none, Option.map_none, Option.none_or, Option.map_eq_none_iff]
  exact Option.map_eq_none_iff.1 unoffered

theorem entries_congr (faithful : Faithful store source after) (also : Faithful store source other)
    (distinct : store.names.Nodup) {id counterpart : ScriptId} {script twin : Script}
    (listed : after.get? id = some script) (found : other.get? counterpart = some twin)
    (same : script.key.lookup = twin.key.lookup) :
    script.entries.map (·.key.lookup) = twin.entries.map (·.key.lookup) := by
  have text : script.text = twin.text := Option.some.inj
    ((faithful.text listed).symm.trans ((congrArg _ same).trans (also.text found)))
  suffices alike : ∀ entry ∈ (IncludeHeader.read twin.text).entries,
      entry.key.same script.key = entry.key.same twin.key by
    rw [Script.entries, Script.entries, text]
    exact congrArg _ (List.filter_congr fun entry among => congrArg _ (alike entry among))
  intro entry among
  rcases faithful.key listed with ⟨old, isOld, oldKey⟩ | ⟨new, plain⟩
  · rcases also.key found with ⟨oldTwin, isOldTwin, oldTwinKey⟩ | ⟨newTwin, -⟩
    · have one : old = oldTwin := List.inj_on_of_nodup_map distinct isOld isOldTwin
        (by rw [oldKey, oldTwinKey, same])
      rw [← oldKey, ← oldTwinKey, one]
    · exact absurd (List.mem_map.2 ⟨old, isOld, by rw [oldKey, same]⟩) newTwin
  · rcases also.key found with ⟨oldTwin, isOldTwin, oldTwinKey⟩ | ⟨-, plainTwin⟩
    · exact absurd (List.mem_map.2 ⟨oldTwin, isOldTwin, by rw [oldTwinKey, same]⟩) new
    · have plainEntry := IncludeHeader.plain_of_mem among
      rw [Bool.eq_iff_iff, ScriptKey.same_iff plainEntry plain, ScriptKey.same_iff plainEntry plainTwin,
        same]

end Faithful

end ScriptStore

namespace LinkState

open ScriptStore (Faithful)

section Named

variable {σ : Type} {store : ScriptStore} {source : ScriptSource} {state : LinkState σ} {base : Nat}
  (faithful : Faithful store source state.store) (sound : state.Sound base source [])
  {id : ScriptId} {script : Script}

include sound

theorem settled_of_visited (visited : id ∈ state.visited) :
    ∀ entry ∈ state.store.entriesOf id, state.Settled source entry := by
  obtain ⟨pair, listed, rfl⟩ := List.mem_map.1 ((sound.finished id).2 ⟨visited, List.not_mem_nil⟩)
  exact sound.settled pair listed

theorem targets_mem (inside : id ∈ state.graph.scripts) :
    ∀ target ∈ state.graph.targets id, target ∈ state.graph.scripts := by
  intro target isTarget
  rw [graph_targets sound inside] at isTarget
  exact included_visited sound inside (ScriptStore.mem_taken.1 isTarget).1

theorem nameOf?_isSome (visited : id ∈ state.visited) : (state.store.nameOf? id).isSome := by
  obtain ⟨script, listed, -⟩ := sound.known id visited
  rw [ScriptStore.nameOf?_of_get? listed]
  rfl

include faithful

theorem accepts_eq (visited : id ∈ state.visited) (listed : state.store.get? id = some script) :
    state.store.accepts id = store.acceptsName source script.key.lookup := by
  obtain ⟨known, isKnown, wasRead⟩ := sound.known id visited
  obtain rfl := Option.some.inj (isKnown.symm.trans listed)
  rw [ScriptStore.accepts, ScriptStore.acceptsName, faithful.text listed, listed]
  exact (faithful.reading listed).resolve_left wasRead

/-- What a settled entry leads to has its name and can be read if its text can; or there is none. -/
theorem Settled.cases {entry : IncludeEntry} (settled : state.Settled source entry) :
    (∃ target ∈ state.visited, state.store.find? entry.key = some target ∧
      state.store.nameOf? target = some entry.key.lookup ∧
      state.store.accepts target = store.acceptsName source entry.key.lookup) ∨
    state.store.find? entry.key = none ∧ store.textOf? source entry.key.lookup = none := by
  rcases settled with ⟨target, visited, found⟩ | ⟨absent, unoffered⟩
  · obtain ⟨script, listed, named⟩ := ScriptStore.get?_of_find? found
    refine .inl ⟨target, visited, found, ScriptStore.nameOf?_of_find? found, ?_⟩
    rw [accepts_eq faithful sound visited listed, named]
  · exact .inr ⟨absent, faithful.textOf?_eq_none absent unoffered⟩

theorem accepted_names {entries : List IncludeEntry}
    (settled : ∀ entry ∈ entries, state.Settled source entry) :
    ((state.store.found entries).filter state.store.accepts).map state.store.nameOf? =
      ((entries.map (·.key.lookup)).filter (store.acceptsName source)).map some := by
  induction entries with
  | nil => rfl
  | cons entry rest ih =>
    have later := ih fun other among => settled other (List.mem_cons_of_mem _ among)
    rw [List.map_cons]
    rcases Settled.cases faithful sound (settled entry (List.mem_cons_self ..)) with
      ⟨target, -, found, named, accepted⟩ | ⟨absent, none⟩
    · have more : state.store.found (entry :: rest) = target :: state.store.found rest :=
        List.filterMap_cons_some found
      rw [more]
      cases isAccepted : state.store.accepts target with
      | true =>
        rw [List.filter_cons_of_pos isAccepted, List.filter_cons_of_pos (accepted ▸ isAccepted),
          List.map_cons, List.map_cons, named, later]
      | false =>
        rw [List.filter_cons_of_neg (Bool.not_eq_true _ ▸ isAccepted),
          List.filter_cons_of_neg (Bool.not_eq_true _ ▸ accepted ▸ isAccepted), later]
    · have refused : store.acceptsName source entry.key.lookup = false := by
        rw [ScriptStore.acceptsName, none]
        rfl
      have same : state.store.found (entry :: rest) = state.store.found rest :=
        List.filterMap_cons_none absent
      rw [same, List.filter_cons_of_neg (Bool.not_eq_true _ ▸ refused), later]

theorem included_names (visited : id ∈ state.visited) (listed : state.store.get? id = some script) :
    (state.store.included id).map state.store.nameOf? =
      ((script.entries.map (·.key.lookup)).filter (store.acceptsName source)).eraseDups.map some := by
  have settled := settled_of_visited sound visited
  have names := accepted_names faithful sound settled
  rw [ScriptStore.entriesOf_of_get? listed] at settled names
  have apart : ∀ left ∈ (state.store.found script.entries).filter state.store.accepts,
      ∀ right ∈ (state.store.found script.entries).filter state.store.accepts,
      state.store.nameOf? left = state.store.nameOf? right → left = right := by
    intro left isLeft right _ same
    obtain ⟨entry, -, found⟩ := ScriptStore.mem_found.1 (List.mem_filter.1 isLeft).1
    have named := ScriptStore.nameOf?_of_find? found
    exact ScriptStore.nameOf?_inj faithful.once named (same ▸ named)
  rw [ScriptStore.included, ScriptStore.entriesOf_of_get? listed, ScriptStore.taken,
    ← eraseDups_map _ apart, names, eraseDups_map some fun _ _ _ _ => Option.some.inj]

theorem includesName_iff (visited : id ∈ state.visited) (listed : state.store.get? id = some script)
    {name : FoldedName} : store.includesName source script.key.lookup name ↔
      ∃ target, state.store.Includes id target ∧ target ≠ id ∧
        state.store.nameOf? target = some name := by
  have own := ScriptStore.nameOf?_of_get? listed
  have named : (∃ target, state.store.Includes id target ∧ state.store.nameOf? target = some name) ↔
      name ∈ script.entries.map (·.key.lookup) ∧ store.acceptsName source name := by
    rw [← List.mem_filter, ← List.mem_eraseDups,
      ← List.mem_map_of_injective (f := some) fun _ _ => Option.some.inj,
      ← included_names faithful sound visited listed, List.mem_map]
    rfl
  have written : name ≠ script.key.lookup →
      (name ∈ script.entries.map (·.key.lookup) ↔ name ∈ headerNames script.text) := by
    intro differs
    have both : name ∈ (script.entries.map (·.key.lookup)).filter (· != script.key.lookup) ↔
        name ∈ (headerNames script.text).filter (· != script.key.lookup) := by
      rw [script.entries_names]
    simpa [List.mem_filter, differs] using both
  rw [ScriptStore.includesName, faithful.text listed]
  simp only [Bool.and_eq_true, bne_iff_ne, Option.any_some, List.contains_iff_mem]
  constructor
  · rintro ⟨⟨differs, among⟩, accepted⟩
    obtain ⟨target, includes, isName⟩ := named.2 ⟨(written differs).2 among, accepted⟩
    refine ⟨target, includes, ?_, isName⟩
    rintro rfl
    exact differs (Option.some.inj (isName.symm.trans own))
  · rintro ⟨target, includes, other, isName⟩
    have differs : name ≠ script.key.lookup := by
      rintro rfl
      exact other (ScriptStore.nameOf?_inj faithful.once isName own)
    obtain ⟨among, accepted⟩ := named.1 ⟨target, includes, isName⟩
    exact ⟨⟨differs, (written differs).1 among⟩, accepted⟩

theorem reaches_names {target : ScriptId} (visited : id ∈ state.visited)
    (listed : state.store.get? id = some script)
    (reaches : ReflTransGen state.store.Includes id target) :
    ∃ found, target ∈ state.visited ∧ state.store.get? target = some found ∧
      ReflTransGen (store.includesName source · ·) script.key.lookup found.key.lookup := by
  induction reaches with
  | refl => exact ⟨script, visited, listed, .refl⟩
  | @tail middle target _ step ih =>
    obtain ⟨between, isVisited, isListed, way⟩ := ih
    have inside := (mem_graph_scripts sound).2 isVisited
    have lies := (mem_graph_scripts sound).1
      (included_visited sound inside (ScriptStore.mem_taken.1 step).1)
    obtain ⟨found, isFound, -⟩ := sound.known target lies
    refine ⟨found, lies, isFound, ?_⟩
    by_cases same : target = middle
    · subst same
      obtain rfl := Option.some.inj (isListed.symm.trans isFound)
      exact way
    · exact way.tail ((includesName_iff faithful sound isVisited isListed).2
        ⟨target, step, same, ScriptStore.nameOf?_of_get? isFound⟩)

theorem exists_reached {name : FoldedName} (visited : id ∈ state.visited)
    (listed : state.store.get? id = some script)
    (way : ReflTransGen (store.includesName source · ·) script.key.lookup name) :
    ∃ target, ReflTransGen state.store.Includes id target ∧
      state.store.nameOf? target = some name := by
  induction way with
  | refl => exact ⟨id, .refl, ScriptStore.nameOf?_of_get? listed⟩
  | tail _ step ih =>
    obtain ⟨middle, reaches, named⟩ := ih
    obtain ⟨between, lies, isListed, -⟩ := reaches_names faithful sound visited listed reaches
    obtain rfl := Option.some.inj (named.symm.trans (ScriptStore.nameOf?_of_get? isListed))
    obtain ⟨target, includes, -, isName⟩ := (includesName_iff faithful sound lies isListed).1 step
    exact ⟨target, reaches.tail includes, isName⟩

theorem direct_names (visited : id ∈ state.visited) (listed : state.store.get? id = some script) :
    ((state.graph.targets id).filterMap state.store.nameOf?).filter (· != script.key.lookup) =
      ((headerNames script.text).filter (store.includesName source script.key.lookup)).eraseDups := by
  have names := congrArg (List.filterMap fun name => name)
    (included_names faithful sound visited listed)
  rw [List.filterMap_map, List.filterMap_map] at names
  have written : (headerNames script.text).filter (store.includesName source script.key.lookup) =
      ((headerNames script.text).filter (· != script.key.lookup)).filter
        (store.acceptsName source) := by
    rw [List.filter_filter]
    refine List.filter_congr fun name among => ?_
    rw [ScriptStore.includesName, faithful.text listed, Option.any_some,
      List.contains_iff_mem.2 among, Bool.and_true, Bool.and_comm]
  rw [graph_targets sound ((mem_graph_scripts sound).2 visited), written, ← script.entries_names,
    List.filter_comm, eraseDups_filter]
  exact congrArg (List.filter _) (names.trans (List.filterMap_some ..))

theorem dependencies_names (visited : id ∈ state.visited)
    (listed : state.store.get? id = some script) : ∃ names : List FoldedName,
    (state.graph.dependencies id).map state.store.nameOf? = names.map some ∧ names.Nodup ∧
    (∀ name ≠ script.key.lookup, name ∈ names ↔
      TransGen (store.includesName source · ·) script.key.lookup name) ∧
    ((headerNames script.text).filter (store.includesName source script.key.lookup)).eraseDups <+:
      names.filter (· != script.key.lookup) := by
  have inside := (mem_graph_scripts sound).2 visited
  have known := targets_mem sound inside
  have isSome : ∀ target ∈ state.graph.dependencies id, (state.store.nameOf? target).isSome :=
    fun target depends => nameOf?_isSome sound
      ((mem_graph_scripts sound).1 (IncludeGraph.dependencies_mem inside known target depends))
  have whole : (state.graph.dependencies id).map state.store.nameOf? =
      ((state.graph.dependencies id).filterMap state.store.nameOf?).map some := by
    rw [List.map_filterMap_some_eq_filter_map_isSome, List.filter_eq_self.2]
    intro name among
    obtain ⟨target, depends, rfl⟩ := List.mem_map.1 among
    exact isSome target depends
  refine ⟨_, whole, ?_, fun name differs => ?_, ?_⟩
  · refine List.Nodup.of_map some (whole ▸ List.Nodup.map_on (fun left isLeft right _ same => ?_)
      (IncludeGraph.dependencies_nodup ?_))
    · obtain ⟨name, named⟩ := Option.isSome_iff_exists.1 (isSome left isLeft)
      exact ScriptStore.nameOf?_inj faithful.once named (same ▸ named)
    · rw [graph_targets sound inside]
      exact eraseDups_nodup _
  · have differ {target : ScriptId} (named : state.store.nameOf? target = some name) :
        target ≠ id := by
      rintro rfl
      exact differs (Option.some.inj (named.symm.trans (ScriptStore.nameOf?_of_get? listed)))
    rw [List.mem_filterMap]
    constructor
    · rintro ⟨target, depends, named⟩
      have reaches := (graph_reaches sound inside).1
        ((IncludeGraph.mem_dependencies inside known (differ named)).1 depends)
      obtain ⟨found, -, isFound, way⟩ := reaches_names faithful sound visited listed reaches
      obtain rfl := Option.some.inj (named.symm.trans (ScriptStore.nameOf?_of_get? isFound))
      exact (Relation.reflTransGen_iff_eq_or_transGen.1 way).resolve_left differs
    · intro way
      obtain ⟨target, reaches, named⟩ := exists_reached faithful sound visited listed
        way.to_reflTransGen
      exact ⟨target, (IncludeGraph.mem_dependencies inside known (differ named)).2
        ((graph_reaches sound inside).2 reaches), named⟩
  · rw [← direct_names faithful sound visited listed, IncludeGraph.dependencies,
      List.filterMap_append, List.filter_append]
    exact List.prefix_append ..

end Named

section Counterpart

variable {σ : Type} {store : ScriptStore} {source : ScriptSource} {state other : LinkState σ}
  {base : Nat} (faithful : Faithful store source state.store) (sound : state.Sound base source [])
  (also : Faithful store source other.store) (otherSound : other.Sound base source [])

def counterpart (state other : LinkState σ) (id : ScriptId) : ScriptId :=
  ((state.store.get? id).bind fun script => other.store.find? script.key).getD id

include also in
theorem counterpart_eq {id twin : ScriptId} {script : Script}
    (listed : state.store.get? id = some script)
    (named : other.store.nameOf? twin = some script.key.lookup) :
    counterpart state other id = twin := by
  rw [counterpart, listed, Option.bind_some, ScriptStore.find?_of_nameOf? also.once named]
  rfl

include faithful also otherSound in
theorem exists_mentioned (distinct : store.names.Nodup) {id twin target : ScriptId} {script : Script}
    (listed : state.store.get? id = some script) (visited : twin ∈ other.visited)
    (named : other.store.nameOf? twin = some script.key.lookup)
    (mentions : state.store.Mentions id target) : ∃ found, state.store.get? target = some found ∧
      ∃ twinTarget ∈ other.visited, other.store.nameOf? twinTarget = some found.key.lookup := by
  obtain ⟨twinScript, twinListed, sameName⟩ := Option.map_eq_some_iff.1 named
  obtain ⟨entry, among, leads⟩ := ScriptStore.mem_found.1 mentions
  obtain ⟨found, isFound, isNamed⟩ := ScriptStore.get?_of_find? leads
  rw [ScriptStore.entriesOf_of_get? listed] at among
  have listedName : entry.key.lookup ∈ twinScript.entries.map (·.key.lookup) := by
    rw [← faithful.entries_congr also distinct listed twinListed sameName.symm]
    exact List.mem_map_of_mem among
  obtain ⟨twinEntry, isTwinEntry, sameEntry⟩ := List.mem_map.1 listedName
  refine ⟨found, isFound, ?_⟩
  rcases Settled.cases also otherSound (settled_of_visited otherSound visited twinEntry
    (by rwa [ScriptStore.entriesOf_of_get? twinListed])) with
    ⟨twinTarget, isVisited, -, twinNamed, -⟩ | ⟨-, none⟩
  · exact ⟨twinTarget, isVisited, by rw [twinNamed, sameEntry, isNamed]⟩
  · -- the entry leads somewhere in one of the states, so there is a text of its name
    rw [sameEntry, ← isNamed, faithful.text isFound] at none
    exact nomatch none

section Covered

variable (distinct : store.names.Nodup)
  (covered : ∀ {id script}, id ∈ state.visited → state.store.get? id = some script →
    ∃ twin ∈ other.visited, other.store.nameOf? twin = some script.key.lookup)

include sound also covered

theorem counterpart_visited {id : ScriptId} (visited : id ∈ state.visited) :
    counterpart state other id ∈ other.visited ∧
      other.store.nameOf? (counterpart state other id) = state.store.nameOf? id := by
  obtain ⟨script, listed, -⟩ := sound.known id visited
  obtain ⟨twin, isVisited, named⟩ := covered visited listed
  rw [counterpart_eq also listed named, ScriptStore.nameOf?_of_get? listed]
  exact ⟨isVisited, named⟩

include faithful otherSound distinct

theorem counterpart_drawn :
    IncludeGraph.Drawn state.graph other.graph (counterpart state other) := by
  have lies {id : ScriptId} (inside : id ∈ state.graph.scripts) : id ∈ state.visited :=
    (mem_graph_scripts sound).1 inside
  refine ⟨fun id inside => ?_, fun left first right second same => ?_,
    fun id inside => targets_mem sound inside, fun id inside => ?_⟩
  · exact (mem_graph_scripts otherSound).2 (counterpart_visited sound also covered (lies inside)).1
  · obtain ⟨name, named⟩ := Option.isSome_iff_exists.1 (nameOf?_isSome sound (lies first))
    refine ScriptStore.nameOf?_inj faithful.once named ?_
    rw [← (counterpart_visited sound also covered (lies second)).2, ← same,
      (counterpart_visited sound also covered (lies first)).2, named]
  · obtain ⟨script, listed, -⟩ := sound.known id (lies inside)
    obtain ⟨visited, named⟩ := counterpart_visited sound also covered (lies inside)
    rw [ScriptStore.nameOf?_of_get? listed] at named
    obtain ⟨twin, twinListed, sameName⟩ := Option.map_eq_some_iff.1 named
    have twinInside := (mem_graph_scripts otherSound).2 visited
    -- both lists have the names of the same entries
    refine ScriptStore.eq_of_map_nameOf? also.once (fun target isTarget => nameOf?_isSome otherSound
      ((mem_graph_scripts otherSound).1 (targets_mem otherSound twinInside target isTarget))) ?_
    calc (other.graph.targets (counterpart state other id)).map other.store.nameOf?
        = (state.graph.targets id).map state.store.nameOf? := by
          rw [graph_targets otherSound twinInside, graph_targets sound inside,
            included_names also otherSound visited twinListed,
            included_names faithful sound (lies inside) listed,
            faithful.entries_congr also distinct listed twinListed sameName.symm]
      _ = ((state.graph.targets id).map (counterpart state other)).map other.store.nameOf? := by
          rw [List.map_map]
          refine List.map_congr_left fun target isTarget => ?_
          exact (counterpart_visited sound also covered
            (lies (targets_mem sound inside target isTarget))).2.symm

theorem counterpart_dependencies {id : ScriptId} (visited : id ∈ state.visited) :
    (other.graph.dependencies (counterpart state other id)).map other.store.nameOf? =
      (state.graph.dependencies id).map state.store.nameOf? := by
  have inside := (mem_graph_scripts sound).2 visited
  rw [(counterpart_drawn faithful sound also otherSound distinct covered).dependencies inside,
    List.map_map]
  refine List.map_congr_left fun target depends => ?_
  exact (counterpart_visited sound also covered ((mem_graph_scripts sound).1
    (IncludeGraph.dependencies_mem inside (targets_mem sound inside) target depends))).2

end Covered

end Counterpart

end LinkState

namespace ScriptStore

section Link

variable {σ : Type} {store : ScriptStore} {read : ScriptReader σ} {source : ScriptSource}
  {roots : List ScriptId} (reader : σ) (honest : read.Honest) (distinct : store.names.Nodup)
  (unread : ∀ script ∈ store.scripts, script.reading = .unread)
  (known : ∀ root ∈ roots, root ∈ store.ids)

theorem Alike.nameOf? {other : ScriptStore} (alike : Alike store other) :
    other.nameOf? = store.nameOf? := by
  funext id
  rw [← getElem?_names, ← getElem?_names, alike.names]

include known in
theorem nameOf?_linkState (others : List ScriptId) (othersKnown : ∀ root ∈ others, root ∈ store.ids)
    {root : ScriptId} (isRoot : root ∈ roots) :
    (store.linkState read reader source others).store.nameOf? root = store.nameOf? root := by
  obtain ⟨index, inside, rfl⟩ := List.mem_map.1 (known root isRoot)
  have listed : store.get? ⟨index⟩ = some _ := List.getElem?_eq_getElem (List.mem_range.1 inside)
  obtain ⟨later, isLater, key, -⟩ :=
    (linkState_links read reader source othersKnown).advances.grows.kept listed
  rw [nameOf?_of_get? isLater, nameOf?_of_get? listed, key]

include honest distinct unread known in
theorem linkState_covered {others : List ScriptId} (othersKnown : ∀ root ∈ others, root ∈ store.ids)
    (among : ∀ root ∈ roots, root ∈ others) {id : ScriptId} {script : Script}
    (visited : id ∈ (store.linkState read reader source roots).visited)
    (listed : (store.linkState read reader source roots).store.get? id = some script) :
    ∃ twin ∈ (store.linkState read reader source others).visited,
      (store.linkState read reader source others).store.nameOf? twin = some script.key.lookup := by
  have links := linkState_links read reader source known
  have otherLinks := linkState_links read reader source othersKnown
  obtain ⟨root, isRoot, leads⟩ := (links.reached id visited).resolve_left List.not_mem_nil
  induction leads generalizing script with
  | refl =>
    refine ⟨root, otherLinks.begun root (among root isRoot), ?_⟩
    rw [nameOf?_linkState reader known others othersKnown isRoot,
      ← nameOf?_linkState reader known roots known isRoot, nameOf?_of_get? listed]
  | @tail middle target way mentions ih =>
    obtain ⟨entry, isEntry, -⟩ := mem_found.1 mentions
    cases between : (store.linkState read reader source roots).store.get? middle with
    | none => simp [entriesOf, between] at isEntry
    | some middleScript =>
      have middleVisited := (LinkState.mem_graph_scripts links.sound).1
        ((mem_linkState_graph read reader source known).2 ⟨root, isRoot, way⟩)
      obtain ⟨twin, twinVisited, twinNamed⟩ := ih middleVisited between
      obtain ⟨found, isFound, twinTarget⟩ := LinkState.exists_mentioned
        (linkState_faithful reader honest distinct unread)
        (linkState_faithful reader honest distinct unread) otherLinks.sound distinct between
        twinVisited twinNamed mentions
      obtain rfl := Option.some.inj (isFound.symm.trans listed)
      exact twinTarget

theorem dependencies_link {id : ScriptId} {script : Script}
    (visited : id ∈ (store.linkState read reader source roots).graph.scripts)
    (listed : (store.linkState read reader source roots).store.get? id = some script) :
    (store.link read reader source roots).store.get? id = some { script with
      dependencies := (store.linkState read reader source roots).graph.dependencies id } := by
  rw [(store.link_eq read reader source roots).1, get?_withDependencies, listed, Option.map_some,
    if_pos visited]

theorem link_alike (store : ScriptStore) (read : ScriptReader σ) (source : ScriptSource)
    (roots : List ScriptId) : Alike (store.linkState read reader source roots).store
      (store.link read reader source roots).store := by
  rw [(store.link_eq read reader source roots).1]
  exact withDependencies_alike ..

include honest distinct unread known in
/-- A linked script depends on each other script that its includes lead to once and on no other, on
its own includes first, in the order of its header. In whatever order the roots are given, it depends
on the same scripts in the same order. -/
theorem link_dependencies {linked : Linked σ}
    (isLinked : store.link read reader source roots = linked) :
    linked.store.names.Nodup ∧ ∀ id, linked.store.LedTo roots id →
    ∃ (script : Script) (names : List FoldedName), linked.store.get? id = some script ∧
      store.textOf? source script.key.lookup = some script.text ∧
      script.dependencies.map linked.store.nameOf? = names.map some ∧
      (∀ name ≠ script.key.lookup,
        (TransGen (store.includesName source · ·) script.key.lookup name → names.count name = 1) ∧
        (¬ TransGen (store.includesName source · ·) script.key.lookup name →
          names.count name = 0)) ∧
      ((headerNames script.text).filter (store.includesName source script.key.lookup)).eraseDups <+:
        names.filter (· != script.key.lookup) ∧
      ∀ others, (∀ root, root ∈ others ↔ root ∈ roots) → ∃ twin twinScript,
        (store.link read reader source others).store.LedTo others twin ∧
        (store.link read reader source others).store.get? twin = some twinScript ∧
        twinScript.key.lookup = script.key.lookup ∧
        twinScript.dependencies.map (store.link read reader source others).store.nameOf? =
          names.map some := by
  subst isLinked
  have alike := link_alike reader store read source roots
  have faithful : Faithful store source (store.linkState read reader source roots).store :=
    linkState_faithful reader honest distinct unread
  have sound := (linkState_links read reader source known).sound
  refine ⟨alike.names ▸ faithful.once, fun id led => ?_⟩
  rw [alike.ledTo, ← mem_linkState_graph read reader source known] at led
  have visited := (LinkState.mem_graph_scripts sound).1 led
  obtain ⟨script, listed, -⟩ := sound.known id visited
  obtain ⟨names, whole, once, reached, direct⟩ :=
    LinkState.dependencies_names faithful sound visited listed
  refine ⟨_, names, dependencies_link reader led listed, (faithful.text listed :),
    by rw [alike.nameOf?, whole], fun name differs => ⟨fun way => ?_, fun noWay => ?_⟩, direct,
    fun others same => ?_⟩
  · exact List.count_eq_one_of_mem once ((reached name differs).2 way)
  · exact List.count_eq_zero.2 fun among => noWay ((reached name differs).1 among)
  · have othersKnown : ∀ root ∈ others, root ∈ store.ids := fun root isRoot =>
      known root ((same root).1 isRoot)
    have otherAlike := link_alike reader store read source others
    have also : Faithful store source (store.linkState read reader source others).store :=
      linkState_faithful reader honest distinct unread
    have otherSound := (linkState_links read reader source othersKnown).sound
    have covered {id : ScriptId} {script : Script}
        (visited : id ∈ (store.linkState read reader source roots).visited)
        (listed : (store.linkState read reader source roots).store.get? id = some script) :=
      linkState_covered reader honest distinct unread known othersKnown
        (fun root isRoot => (same root).2 isRoot) visited listed
    obtain ⟨twinVisited, named⟩ := LinkState.counterpart_visited sound also covered visited
    have twinInside := (LinkState.mem_graph_scripts otherSound).2 twinVisited
    rw [nameOf?_of_get? listed] at named
    obtain ⟨twin, twinListed, sameName⟩ := Option.map_eq_some_iff.1 named
    refine ⟨_, _, ?_, dependencies_link reader twinInside twinListed, sameName, ?_⟩
    · rw [otherAlike.ledTo, ← mem_linkState_graph read reader source othersKnown]
      exact twinInside
    · rw [otherAlike.nameOf?, ← whole]
      exact LinkState.counterpart_dependencies faithful sound also otherSound distinct covered visited

end Link

def entwinedSource : ScriptSource := ⟨[(⟨"Lib", "C"⟩, { text := "x = 1" })]⟩

theorem link_dependencies_cycle : ∃ linked, ScriptReader.direct.Honest ∧ entwinedPair.names.Nodup ∧
    (∀ script ∈ entwinedPair.scripts, script.reading = .unread) ∧
    (∀ root ∈ entwinedPair.ids, root ∈ entwinedPair.ids) ∧
    entwinedPair.link ScriptReader.direct () entwinedSource entwinedPair.ids = linked ∧
    linked.store.names.Nodup ∧ ∀ id, linked.store.LedTo entwinedPair.ids id →
    ∃ (script : Script) (names : List FoldedName), linked.store.get? id = some script ∧
      entwinedPair.textOf? entwinedSource script.key.lookup = some script.text ∧
      script.dependencies.map linked.store.nameOf? = names.map some ∧
      (∀ name ≠ script.key.lookup,
        (TransGen (entwinedPair.includesName entwinedSource · ·) script.key.lookup name →
          names.count name = 1) ∧
        (¬ TransGen (entwinedPair.includesName entwinedSource · ·) script.key.lookup name →
          names.count name = 0)) ∧
      ((headerNames script.text).filter
        (entwinedPair.includesName entwinedSource script.key.lookup)).eraseDups <+:
          names.filter (· != script.key.lookup) ∧
      ∀ others, (∀ root, root ∈ others ↔ root ∈ entwinedPair.ids) → ∃ twin twinScript,
        (entwinedPair.link .direct () entwinedSource others).store.LedTo others twin ∧
        (entwinedPair.link .direct () entwinedSource others).store.get? twin = some twinScript ∧
        twinScript.key.lookup = script.key.lookup ∧
        twinScript.dependencies.map
          (entwinedPair.link .direct () entwinedSource others).store.nameOf? = names.map some := by
  have distinct : entwinedPair.names.Nodup := by decide +kernel
  have unread : ∀ script ∈ entwinedPair.scripts, script.reading = .unread := by
    simp [entwinedPair]
  exact ⟨_, ScriptReader.direct_honest, distinct, unread, fun _ listed => listed, rfl,
    link_dependencies () ScriptReader.direct_honest distinct unread (fun _ listed => listed) rfl⟩

end ScriptStore

end ScriptMigration
