import ScriptMigration.Proofs.Include.Graph
import ScriptMigration.Proofs.Include.Link

/-! The order in which linked scripts are worked on. The graph that linking builds is that of the
includes in the linked store; every script that could be read has one place in the order, after what
it includes, and scripts that include each other stand together by number. -/
namespace ScriptMigration

open Relation (ReflTransGen)

namespace LinkState

variable {σ : Type} {source : ScriptSource} {state : LinkState σ} {base : Nat}

theorem Sound.init (store : ScriptStore) (reader : σ) (source : ScriptSource) :
    Sound store.size source [] ({ store, reader } : LinkState σ) := by
  have none : store.names.drop store.size = [] :=
    List.drop_eq_nil_of_le (Nat.le_of_eq store.length_names)
  refine ⟨List.nodup_nil, fun _ listed => absurd listed List.not_mem_nil, Nat.le_refl _,
    by rw [none]; exact List.nodup_nil, fun name listed => ?_,
    fun _ listed => absurd listed List.not_mem_nil, List.nodup_nil, fun id => ?_,
    fun _ listed => absurd listed List.not_mem_nil, fun _ listed => absurd listed List.not_mem_nil⟩
  · rw [none] at listed
    exact absurd listed List.not_mem_nil
  · simp

theorem Sound.linkRoots (sound : state.Sound base source []) (read : ScriptReader σ) {bound : Nat}
    (room : base + source.entries.length < bound) {roots : List ScriptId}
    (known : ∀ root ∈ roots, ∃ script, state.store.get? root = some script) :
    Links base source [] roots state
      (roots.foldl (fun state root => LinkState.link read source bound root state) state) := by
  induction roots generalizing state with
  | nil => exact ⟨sound, .refl source state, fun _ listed => absurd listed List.not_mem_nil,
      fun _ => .inl, fun index small large => absurd small (Nat.not_lt.2 large)⟩
  | cons root rest ih =>
    obtain ⟨script, listed⟩ := known root (List.mem_cons_self ..)
    have first := sound.link read listed (Nat.lt_of_lt_of_le room (Nat.le_add_right ..))
    have later := ih first.sound fun other among => by
      obtain ⟨script, listed⟩ := known other (List.mem_cons_of_mem _ among)
      obtain ⟨later, found, -⟩ := first.advances.grows.kept listed
      exact ⟨later, found⟩
    exact first.append later

theorem graph_scripts_perm (state : LinkState σ) :
    state.graph.scripts.Perm (state.direct.map Prod.fst) := (List.mergeSort_perm ..).map _

section Graph

variable (sound : state.Sound base source [])

include sound

theorem mem_graph_scripts {id : ScriptId} : id ∈ state.graph.scripts ↔ id ∈ state.visited := by
  rw [state.graph_scripts_perm.mem_iff, sound.finished]
  simp

theorem graph_scripts_nodup : state.graph.scripts.Nodup :=
  state.graph_scripts_perm.nodup_iff.2 sound.directOnce

theorem graph_scripts_sorted :
    state.graph.scripts.Pairwise fun left right => left.index < right.index := by
  have ascending : state.graph.edges.Pairwise fun left right =>
      decide (left.1.index ≤ right.1.index) = true :=
    List.pairwise_mergeSort (fun first second third => by simpa using Nat.le_trans)
      (fun first second => by simpa using Nat.le_total ..) state.direct
  have sorted := ascending.imp fun ordered => of_decide_eq_true ordered
  have apart := List.pairwise_map.1 (graph_scripts_nodup sound)
  refine List.pairwise_map.2 ((sorted.and apart).imp fun {left right} ⟨ordered, differ⟩ => ?_)
  refine Nat.lt_of_le_of_ne ordered fun same => differ ?_
  rcases left with ⟨⟨index⟩, _⟩
  exact congrArg ScriptId.mk same

theorem graph_targets {id : ScriptId} (inside : id ∈ state.graph.scripts) :
    state.graph.targets id = state.store.included id := by
  obtain ⟨pair, listed, rfl⟩ := List.mem_map.1 inside
  cases found : state.graph.edges.find? (·.1 == pair.1) with
  | none => simpa using List.find?_eq_none.1 found pair listed
  | some other =>
    have same : other.1 = pair.1 := by simpa using List.find?_some found
    have among : other ∈ state.direct :=
      (List.mergeSort_perm ..).subset (List.mem_of_find?_eq_some found)
    rw [IncludeGraph.targets, found, ← same]
    exact sound.includes other among

theorem included_visited {script target : ScriptId} (inside : script ∈ state.graph.scripts)
    (mentions : state.store.Mentions script target) : target ∈ state.graph.scripts := by
  obtain ⟨pair, listed, rfl⟩ := List.mem_map.1 (state.graph_scripts_perm.subset inside)
  obtain ⟨entry, among, found⟩ := ScriptStore.mem_found.1 mentions
  rcases sound.settled pair listed entry among with ⟨other, visited, same⟩ | ⟨absent, -⟩
  · obtain rfl := Option.some.inj (same.symm.trans found)
    exact (mem_graph_scripts sound).2 visited
  · exact nomatch absent.symm.trans found

theorem graph_includes {script target : ScriptId} (inside : script ∈ state.graph.scripts) :
    state.graph.Includes script target ↔ state.store.Includes script target := by
  rw [IncludeGraph.Includes, graph_targets sound inside]
  refine ⟨And.left, fun includes => ⟨includes, ?_⟩⟩
  exact included_visited sound inside (ScriptStore.mem_taken.1 includes).1

theorem graph_reaches {script target : ScriptId} (inside : script ∈ state.graph.scripts) :
    state.graph.Reaches script target ↔ ReflTransGen state.store.Includes script target := by
  constructor
  · intro reaches
    induction reaches using ReflTransGen.head_induction_on with
    | refl => exact .refl
    | head step _ ih => exact .head ((graph_includes sound inside).1 step) (ih step.2)
  · intro reaches
    induction reaches using ReflTransGen.head_induction_on with
    | refl => exact .refl
    | head step _ ih =>
      have included := (graph_includes sound inside).2 step
      exact .head included (ih included.2)

end Graph

end LinkState

namespace ScriptStore

variable {store other : ScriptStore}

/-- A store that differs only in what its scripts depend on. -/
structure Alike (store other : ScriptStore) : Prop where
  names : other.names = store.names
  scripts : ∀ id, ∃ dependencies, other.get? id =
    (store.get? id).map fun script => { script with dependencies }

namespace Alike

theorem refl (store : ScriptStore) : Alike store store := by
  refine ⟨rfl, fun id => ?_⟩
  cases listed : store.get? id with
  | none => exact ⟨[], rfl⟩
  | some script => exact ⟨script.dependencies, rfl⟩

variable (alike : Alike store other)

include alike

theorem found : other.found = store.found := by
  funext entries
  exact List.filterMap_congr fun entry _ => find?_congr alike.names entry.key

theorem accepts : other.accepts = store.accepts := by
  funext id
  obtain ⟨dependencies, same⟩ := alike.scripts id
  rw [ScriptStore.accepts, ScriptStore.accepts, same]
  cases store.get? id <;> rfl

theorem entriesOf : other.entriesOf = store.entriesOf := by
  funext id
  obtain ⟨dependencies, same⟩ := alike.scripts id
  rw [ScriptStore.entriesOf, ScriptStore.entriesOf, same]
  cases store.get? id <;> rfl

theorem mentions : other.Mentions = store.Mentions := by
  funext script target
  rw [Mentions, Mentions, alike.found, alike.entriesOf]

theorem ledTo : other.LedTo = store.LedTo := by
  funext roots script
  rw [LedTo, LedTo, alike.mentions]

theorem included : other.included = store.included := by
  funext id
  rw [ScriptStore.included, ScriptStore.included, taken, taken, alike.found, alike.accepts,
    alike.entriesOf]

theorem includes : other.Includes = store.Includes := by
  funext script target
  rw [Includes, Includes, alike.included]

end Alike

def withDependencies (store : ScriptStore) (dependencies : ScriptId → List ScriptId)
    (scripts : List ScriptId) : ScriptStore :=
  scripts.foldl (fun store script => store.modify script fun entry =>
    { entry with dependencies := dependencies script }) store

theorem withDependencies_alike (store : ScriptStore) (dependencies : ScriptId → List ScriptId)
    (scripts : List ScriptId) : Alike store (store.withDependencies dependencies scripts) := by
  induction scripts generalizing store with
  | nil => exact .refl store
  | cons script rest ih =>
    have later := ih (store.modify script fun entry =>
      { entry with dependencies := dependencies script })
    refine ⟨later.names.trans (names_modify _ _ fun _ => rfl), fun id => ?_⟩
    obtain ⟨given, same⟩ := later.scripts id
    refine ⟨given, same.trans ?_⟩
    rw [get?_modify]
    split
    · cases store.get? id <;> rfl
    · rfl

theorem get?_withDependencies (store : ScriptStore) (dependencies : ScriptId → List ScriptId)
    (scripts : List ScriptId) (id : ScriptId) :
    (store.withDependencies dependencies scripts).get? id = (store.get? id).map fun script =>
      if id ∈ scripts then { script with dependencies := dependencies id } else script := by
  induction scripts generalizing store with
  | nil => simp [withDependencies]
  | cons script rest ih =>
    have later := ih (store.modify script fun entry =>
      { entry with dependencies := dependencies script })
    refine later.trans ?_
    rw [get?_modify]
    by_cases same : id = script
    · subst same
      cases store.get? id <;> simp
    · cases store.get? id <;> simp [same]

section Link

variable {σ : Type} (store : ScriptStore) (read : ScriptReader σ) (reader : σ)
  (source : ScriptSource) (roots : List ScriptId)

def linkState : LinkState σ :=
  roots.foldl (fun state root =>
    LinkState.link read source (store.size + source.entries.length + 1) root state)
    { store, reader }

theorem link_eq : (store.link read reader source roots).store =
      (store.linkState read reader source roots).store.withDependencies
        (store.linkState read reader source roots).graph.dependencies
        (store.linkState read reader source roots).graph.scripts ∧
    (store.link read reader source roots).order =
      (store.linkState read reader source roots).graph.order.filter
        (store.link read reader source roots).store.accepts := ⟨rfl, rfl⟩

variable {store roots}

theorem linkState_links (known : ∀ root ∈ roots, root ∈ store.ids) :
    LinkState.Links store.size source [] roots { store, reader }
      (store.linkState read reader source roots) := by
  refine (LinkState.Sound.init store reader source).linkRoots read (Nat.lt_succ_self _)
    fun root listed => ?_
  obtain ⟨index, inside, rfl⟩ := List.mem_map.1 (known root listed)
  exact ⟨_, List.getElem?_eq_getElem (List.mem_range.1 inside)⟩

theorem mem_linkState_graph (known : ∀ root ∈ roots, root ∈ store.ids) {script : ScriptId} :
    script ∈ (store.linkState read reader source roots).graph.scripts ↔
      (store.linkState read reader source roots).store.LedTo roots script := by
  have links := linkState_links read reader source known
  constructor
  · intro inside
    exact (links.reached script ((LinkState.mem_graph_scripts links.sound).1 inside)).resolve_left
      List.not_mem_nil
  · rintro ⟨root, isRoot, leads⟩
    have start := (LinkState.mem_graph_scripts links.sound).2 (links.begun root isRoot)
    induction leads with
    | refl => exact start
    | tail _ step ih => exact LinkState.included_visited links.sound ih step

/-- The order of a linked batch holds every script that could be read once, after all that it
includes and that does not include it, and those that include each other together by number. -/
theorem link_order (known : ∀ root ∈ roots, root ∈ store.ids) {linked : Linked σ}
    (isLinked : store.link read reader source roots = linked) :
    (linked.order.Nodup ∧ ∀ script, script ∈ linked.order ↔ linked.store.accepts script ∧
      linked.store.LedTo roots script) ∧
    (∀ script ∈ linked.order, ∀ target, linked.store.Includes script target →
      ¬ ReflTransGen linked.store.Includes target script → Before linked.order target script) ∧
    ∀ script ∈ linked.order, ∃ before block after, linked.order = before ++ block ++ after ∧
      block.Pairwise (fun left right => left.index < right.index) ∧
      ∀ other, other ∈ block ↔ ReflTransGen linked.store.Includes script other ∧
        ReflTransGen linked.store.Includes other script := by
  subst isLinked
  have sound := (linkState_links read reader source known).sound
  have once := LinkState.graph_scripts_nodup sound
  have alike := withDependencies_alike (store.linkState read reader source roots).store
    (store.linkState read reader source roots).graph.dependencies
    (store.linkState read reader source roots).graph.scripts
  obtain ⟨sameStore, sameOrder⟩ := store.link_eq read reader source roots
  rw [sameOrder, sameStore, alike.accepts, alike.ledTo, alike.includes]
  have listed {script : ScriptId} : script ∈ (store.linkState read reader source roots).graph.order ↔
      script ∈ (store.linkState read reader source roots).graph.scripts :=
    (IncludeGraph.order_perm once).mem_iff
  refine ⟨⟨((IncludeGraph.order_perm once).nodup_iff.2 once).filter _, fun script => ?_⟩,
    fun script isListed target includes oneWay => ?_, fun script isListed => ?_⟩
  · rw [List.mem_filter, listed, mem_linkState_graph read reader source known, and_comm]
  · obtain ⟨isOrdered, accepted⟩ := List.mem_filter.1 isListed
    have inside := listed.1 isOrdered
    have edge := (LinkState.graph_includes sound inside).2 includes
    refine Before.filter (IncludeGraph.order_before once inside edge fun back => ?_)
      (mem_taken.1 includes).2 accepted
    exact oneWay ((LinkState.graph_reaches sound edge.2).1 back)
  · obtain ⟨isOrdered, accepted⟩ := List.mem_filter.1 isListed
    have inside := listed.1 isOrdered
    obtain ⟨before, after, split⟩ := IncludeGraph.order_block once inside
    refine ⟨before.filter _, ((store.linkState read reader source roots).graph.component
      script).filter (store.linkState read reader source roots).store.accepts, after.filter _,
      by rw [split, List.filter_append, List.filter_append],
      ((LinkState.graph_scripts_sorted sound).filter _).filter _, fun other => ?_⟩
    rw [List.mem_filter, IncludeGraph.mem_component inside]
    constructor
    · rintro ⟨⟨lies, there, back⟩, -⟩
      exact ⟨(LinkState.graph_reaches sound inside).1 there,
        (LinkState.graph_reaches sound lies).1 back⟩
    · rintro ⟨there, back⟩
      have reaches := (LinkState.graph_reaches sound inside).2 there
      have lies := IncludeGraph.Reaches.mem reaches inside
      exact ⟨⟨lies, reaches, (LinkState.graph_reaches sound lies).2 back⟩,
        accepts_of_reached there accepted⟩

end Link

def entwinedPair : ScriptStore :=
  ⟨[{ key := ⟨"Lib", "A"⟩, plugin := .script, text := "' including script - Lib:B" },
    { key := ⟨"Lib", "B"⟩, plugin := .script, text := "' including script - Lib:A | Lib:C" }]⟩

theorem link_order_cycle : ∃ linked, (∀ root ∈ entwinedPair.ids, root ∈ entwinedPair.ids) ∧
    entwinedPair.link ScriptReader.direct () ⟨[(⟨"Lib", "C"⟩, { text := "x = 1" })]⟩
      entwinedPair.ids = linked ∧
    (linked.order.Nodup ∧ ∀ script, script ∈ linked.order ↔ linked.store.accepts script ∧
      linked.store.LedTo entwinedPair.ids script) ∧
    (∀ script ∈ linked.order, ∀ target, linked.store.Includes script target →
      ¬ ReflTransGen linked.store.Includes target script → Before linked.order target script) ∧
    ∀ script ∈ linked.order, ∃ before block after, linked.order = before ++ block ++ after ∧
      block.Pairwise (fun left right => left.index < right.index) ∧
      ∀ other, other ∈ block ↔ ReflTransGen linked.store.Includes script other ∧
        ReflTransGen linked.store.Includes other script :=
  ⟨_, fun _ listed => listed, rfl,
    link_order ScriptReader.direct () _ (fun _ listed => listed) rfl⟩

end ScriptStore

end ScriptMigration
