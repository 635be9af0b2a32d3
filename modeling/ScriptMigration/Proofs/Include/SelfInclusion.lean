import ScriptMigration.Proofs.Migration.Batch

/-! Scripts that include themselves. A header entry with the family and the name of its own script is
passed over. An entry with other parts that is written like the key of the script is not, and it makes
the script depend on itself; this takes a family with a colon in it. -/
namespace ScriptMigration

def Script.NamesItself (script : Script) : Prop :=
  ∃ entry ∈ script.entries, entry.key.lookup = script.key.lookup

theorem Script.NamesItself.colon {script : Script} (names : script.NamesItself) :
    ':' ∈ script.key.family.toList := by
  obtain ⟨entry, listed, named⟩ := names
  obtain ⟨among, differs⟩ := List.mem_filter.1 listed
  by_contra plain
  have same := (ScriptKey.same_iff (IncludeHeader.plain_of_mem among) plain).2 named
  rw [same] at differs
  exact nomatch differs

theorem IncludeGraph.mem_dependencies_self {graph : IncludeGraph} {script : ScriptId} :
    script ∈ graph.dependencies script ↔ script ∈ graph.targets script := by
  simp [IncludeGraph.dependencies]

namespace LinkState

variable {σ : Type} {source : ScriptSource} {state : LinkState σ} {base : Nat} {id : ScriptId}
  {script : Script}

theorem mem_targets_self (sound : state.Sound base source []) (once : state.store.names.Nodup)
    (visited : id ∈ state.visited) (listed : state.store.get? id = some script) :
    id ∈ state.graph.targets id ↔ script.isValid ∧ script.NamesItself := by
  have leads (entry : IncludeEntry) : state.store.find? entry.key = some id ↔
      entry.key.lookup = script.key.lookup := by
    constructor
    · intro found
      obtain ⟨other, isOther, named⟩ := ScriptStore.get?_of_find? found
      obtain rfl := Option.some.inj (isOther.symm.trans listed)
      exact named.symm
    · intro named
      apply ScriptStore.find?_of_nameOf? once
      rw [ScriptStore.nameOf?_of_get? listed, named]
  have accepts : state.store.accepts id = script.isValid := by
    rw [ScriptStore.accepts, listed]
    rfl
  rw [graph_targets sound ((mem_graph_scripts sound).2 visited), ScriptStore.included,
    ScriptStore.mem_taken, ScriptStore.entriesOf_of_get? listed, ScriptStore.mem_found, accepts]
  simp only [leads]
  exact and_comm

end LinkState

namespace ScriptStore

section Batch

variable {σ : Type} (inputs : List BatchEntry) (read : ScriptReader σ) (reader : σ)
  (source : ScriptSource) {id : ScriptId} {script : Script}

theorem linkInputs_self
    (listed : (linkInputs inputs read reader source).store.get? id = some script) :
    (id ∈ script.dependencies ↔
      id ∈ (inputsState inputs read reader source).graph.targets id) ∧
    (id ∈ (inputsState inputs read reader source).graph.targets id ↔
      script.isValid ∧ script.NamesItself) := by
  rw [get?_linkInputs] at listed
  obtain ⟨old, isOld, rfl⟩ := Option.map_eq_some_iff.1 listed
  have sound := (inputsState_links inputs read reader source).sound
  have visited := visited_inputsState inputs read reader source (mem_ids_of_get? isOld)
  have included := LinkState.mem_targets_self sound (inputsState_nodup inputs read reader source)
    visited isOld
  exact ⟨IncludeGraph.mem_dependencies_self, included⟩

/-- In a linked batch a script depends on itself, and an include leads from it to itself, exactly if
it can be read and its header names it by other parts than those of its key. A script whose family has
no colon never does. -/
theorem link_depends_on_itself_iff
    (listed : (linkInputs inputs read reader source).store.get? id = some script) :
    (id ∈ script.dependencies ↔ script.isValid ∧ script.NamesItself) ∧
    (id ∈ (inputsState inputs read reader source).graph.targets id ↔
      script.isValid ∧ script.NamesItself) ∧
    (':' ∉ script.key.family.toList → id ∉ script.dependencies ∧
      id ∉ (inputsState inputs read reader source).graph.targets id) := by
  obtain ⟨depends, included⟩ := linkInputs_self inputs read reader source listed
  refine ⟨depends.trans included, included, fun plain => ?_⟩
  have apart : id ∉ (inputsState inputs read reader source).graph.targets id := fun inside =>
    plain (included.1 inside).2.colon
  exact ⟨fun inside => apart (depends.1 inside), apart⟩

end Batch

def selfNaming : List BatchEntry :=
  [{ key := ⟨"A:B", "C"⟩, text := "'Including Script - A:B:C" }]

theorem exists_selfNaming : ∃ script,
    (linkInputs selfNaming ScriptReader.direct () {}).store.get? ⟨0⟩ = some script ∧
      script.isValid ∧ script.NamesItself := by
  have entered : (ofInputs selfNaming).1.get? ⟨0⟩ = some
      { key := ⟨"A:B", "C"⟩, plugin := .script, text := "'Including Script - A:B:C" } := rfl
  have readable : parses "'Including Script - A:B:C" = true := by decide +kernel
  have header : (IncludeHeader.read "'Including Script - A:B:C").entries = [⟨⟨"A", "B:C"⟩, 1⟩] := by
    decide +kernel
  obtain ⟨script, listed, key, text⟩ := exists_linked selfNaming ScriptReader.direct () {} entered
  refine ⟨script, listed, ?_, ⟨⟨"A", "B:C"⟩, 1⟩, ?_, ?_⟩
  · rw [isValid_linkInputs selfNaming () {} ScriptReader.direct_honest listed, text, readable]
  · rw [Script.entries, text, key, header]
    exact List.mem_filter.2 ⟨List.mem_singleton_self _, by decide +kernel⟩
  · rw [key]
    decide +kernel

theorem link_depends_on_itself_iff_colon : ∃ script,
    (linkInputs selfNaming ScriptReader.direct () {}).store.get? ⟨0⟩ = some script ∧
      script.isValid ∧ script.NamesItself ∧
      (⟨0⟩ ∈ script.dependencies ↔ script.isValid ∧ script.NamesItself) := by
  obtain ⟨script, listed, valid, names⟩ := exists_selfNaming
  exact ⟨script, listed, valid, names,
    (link_depends_on_itself_iff selfNaming ScriptReader.direct () {} listed).1⟩

/-- It is not so that no linked script depends on itself, nor that no include leads from a script to
itself. -/
theorem exists_link_depends_on_itself : ∃ id script,
    (linkInputs selfNaming ScriptReader.direct () {}).store.get? id = some script ∧
      id ∈ script.dependencies ∧
      id ∈ (inputsState selfNaming ScriptReader.direct () {}).graph.targets id := by
  obtain ⟨script, listed, valid, names⟩ := exists_selfNaming
  obtain ⟨depends, included⟩ := linkInputs_self selfNaming ScriptReader.direct () {} listed
  exact ⟨⟨0⟩, script, listed, depends.2 (included.2 ⟨valid, names⟩), included.2 ⟨valid, names⟩⟩

end ScriptStore

end ScriptMigration
