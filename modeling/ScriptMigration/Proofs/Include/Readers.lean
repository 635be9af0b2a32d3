import ScriptMigration.Proofs.Migration.Batch

/-! Linking with one reader or another. Where a reader gives what another one gives, it links a batch
in the same way; what it holds of its own is told by what each reading and each fetch keeps. -/
namespace ScriptMigration

namespace LinkState

variable {σ τ : Type}

def mapReader (see : σ → τ) (state : LinkState σ) : LinkState τ where
  store := state.store
  reader := see state.reader
  visited := state.visited
  direct := state.direct
  loaded := state.loaded
  asked := state.asked
  diagnostics := state.diagnostics

end LinkState

def ScriptStore.texts (store : ScriptStore) : List String := store.scripts.map (·.text)

theorem ScriptStore.texts_setReading (store : ScriptStore) (id : ScriptId) (reading : Reading) :
    (store.setReading id reading).texts = store.texts := by
  refine List.ext_getElem? fun index => ?_
  simp only [texts, setReading, modify, List.getElem?_map, List.getElem?_modify]
  cases store.scripts[index]? with
  | none => rfl
  | some script => split <;> rfl

/-- A reader gives what another one gives for certain texts, as long as `Holds` does; and that is kept
when a script is read, when one is asked for in vain and when one is fetched. -/
structure ScriptReader.Mimics {σ τ : Type} (read : ScriptReader σ) (other : ScriptReader τ)
    (see : σ → τ) (source : ScriptSource) (texts : List String)
    (Holds : ScriptStore → σ → List ScriptKey → Prop) : Prop where
  reads : ∀ {store id script reader asked}, Holds store reader asked → store.get? id = some script →
    script.text ∈ texts → script.reading = .unread →
    other id script (see reader) = ((read id script reader).1, see (read id script reader).2) ∧
      Holds (store.setReading id (LinkState.verdict read id script reader))
        (read id script reader).2 asked
  misses : ∀ {store reader asked key}, Holds store reader asked → store.find? key = none →
    source.find? key = none → Holds store reader (asked ++ [key])
  fetches : ∀ {store reader asked key found}, Holds store reader asked → store.find? key = none →
    source.find? key = some found → Holds ⟨store.scripts ++
      [({ key, plugin := found.plugin, text := found.text } : Script)]⟩ reader (asked ++ [key])

namespace LinkState

variable {σ τ : Type} {read : ScriptReader σ} {other : ScriptReader τ} {see : σ → τ}
  {source : ScriptSource} {texts : List String} {Holds : ScriptStore → σ → List ScriptKey → Prop}
  {state : LinkState σ}

/-- What holds of the scripts, the reader and the keys asked for. -/
abbrev Keeps (Holds : ScriptStore → σ → List ScriptKey → Prop) (state : LinkState σ) : Prop :=
  Holds state.store state.reader state.asked

theorem mapReader_foldl_warn {α : Type} (message : α → String) (items : List α)
    (state : LinkState σ) :
    items.foldl (fun state item => state.warn (message item)) (state.mapReader see) =
      (items.foldl (fun state item => state.warn (message item)) state).mapReader see := by
  induction items generalizing state with
  | nil => rfl
  | cons item rest ih => exact ih (state.warn (message item))

theorem keeps_foldl_warn {α : Type} (message : α → String) (items : List α)
    (keeps : state.Keeps Holds) :
    (items.foldl (fun state item => state.warn (message item)) state).Keeps Holds := by
  obtain ⟨diagnostics, same⟩ := foldl_warn message items state
  rw [same]
  exact keeps

section Texts

theorem texts_link (read : ScriptReader σ) (source : ScriptSource) (bound : Nat) (id : ScriptId)
    (state : LinkState σ) :
    state.store.texts ⊆ (link read source bound id state).store.texts := by
  intro text listed
  refine link_keeps (P := fun store => text ∈ store.texts) (fun {store id script} reader inside _ _ => ?_)
    (fun {store _ entry found} inside _ _ _ => ?_) bound id listed
  · rw [ScriptStore.texts_setReading]
    exact inside
  · rw [ScriptStore.texts, List.map_append]
    exact List.mem_append_left _ inside

theorem texts_fetch (source : ScriptSource) (key : ScriptKey) (state : LinkState σ) :
    state.store.texts ⊆ (fetch source key state).2.store.texts := by
  unfold fetch
  split
  · exact List.Subset.refl _
  · rename_i absent
    dsimp only
    split
    · exact List.Subset.refl _
    · rw [ScriptStore.add_of_none absent]
      intro text listed
      rw [ScriptStore.texts, List.map_append]
      exact List.mem_append_left _ listed

theorem texts_follow (read : ScriptReader σ) (source : ScriptSource) (bound : Nat) (own : ScriptKey)
    (reached : List ScriptId × LinkState σ) (entry : IncludeEntry) :
    reached.2.store.texts ⊆ (follow read source bound own reached entry).2.store.texts := by
  have fetched := texts_fetch source entry.key reached.2
  unfold follow
  split
  · rename_i next isNext
    rw [isNext] at fetched
    exact fetched
  · rename_i target next isNext
    rw [isNext] at fetched
    have linked := List.Subset.trans fetched (texts_link read source bound target next)
    dsimp only
    split <;> exact linked

theorem texts_foldl_follow (read : ScriptReader σ) (source : ScriptSource) (bound : Nat)
    (own : ScriptKey) (entries : List IncludeEntry) (reached : List ScriptId × LinkState σ) :
    reached.2.store.texts ⊆
      (entries.foldl (follow read source bound own) reached).2.store.texts := by
  induction entries generalizing reached with
  | nil => exact List.Subset.refl _
  | cons entry rest ih => exact List.Subset.trans (texts_follow read source bound own reached entry) (ih _)

end Texts

/-- Linking with both readers and this bound keeps what holds and comes to the same, as long as all
texts are among the given ones. -/
def LinksAlike (read : ScriptReader σ) (other : ScriptReader τ) (see : σ → τ)
    (source : ScriptSource) (texts : List String) (Holds : ScriptStore → σ → List ScriptKey → Prop)
    (bound : Nat) : Prop :=
  ∀ (id : ScriptId) {state : LinkState σ}, state.Keeps Holds →
    (link other source bound id (state.mapReader see)).store.texts ⊆ texts →
    (link read source bound id state).Keeps Holds ∧
      link other source bound id (state.mapReader see) =
        (link read source bound id state).mapReader see

section Mimics

variable (mimics : read.Mimics other see source texts Holds)

include mimics

theorem readScript_mimics (id : ScriptId) (keeps : state.Keeps Holds)
    (fits : state.store.texts ⊆ texts) :
    (readScript read id state).Keeps Holds ∧
      readScript other id (state.mapReader see) = (readScript read id state).mapReader see := by
  unfold readScript
  have same : (state.mapReader see).store = state.store := rfl
  rw [same]
  cases listed : state.store.get? id with
  | none => exact ⟨keeps, rfl⟩
  | some script =>
    dsimp only
    split
    · exact ⟨keeps, rfl⟩
    · exact ⟨keeps, rfl⟩
    · rename_i unread
      have known : script.text ∈ texts :=
        fits (List.mem_map_of_mem (List.mem_of_getElem? listed))
      obtain ⟨gives, kept⟩ := mimics.reads keeps listed known unread
      have sameReader : (state.mapReader see).reader = see state.reader := rfl
      rw [sameReader, gives]
      unfold verdict at kept
      rcases result : read id script state.reader with ⟨module | faults, reader⟩ <;>
      · rw [result] at kept
        exact ⟨kept, rfl⟩

theorem fetch_mimics (key : ScriptKey) (keeps : state.Keeps Holds) :
    (fetch source key state).2.Keeps Holds ∧ fetch source key (state.mapReader see) =
      ((fetch source key state).1, (fetch source key state).2.mapReader see) := by
  unfold fetch
  have same : (state.mapReader see).store = state.store := rfl
  rw [same]
  cases found : state.store.find? key with
  | some id => exact ⟨keeps, rfl⟩
  | none =>
    dsimp only
    cases offered : source.find? key with
    | none => exact ⟨mimics.misses keeps found offered, rfl⟩
    | some script =>
      have kept := mimics.fetches keeps found offered
      dsimp only
      rw [ScriptStore.add_of_none found script.plugin script.text]
      exact ⟨kept, rfl⟩

theorem follow_mimics {bound : Nat} (linked : LinksAlike read other see source texts Holds bound)
    (own : ScriptKey) (targets : List ScriptId) (entry : IncludeEntry) (keeps : state.Keeps Holds)
    (fits : (follow other source bound own (targets, state.mapReader see) entry).2.store.texts ⊆
      texts) :
    (follow read source bound own (targets, state) entry).2.Keeps Holds ∧
      follow other source bound own (targets, state.mapReader see) entry =
        ((follow read source bound own (targets, state) entry).1,
          (follow read source bound own (targets, state) entry).2.mapReader see) := by
  obtain ⟨kept, same⟩ := fetch_mimics mimics entry.key keeps
  unfold follow at fits ⊢
  dsimp only at fits ⊢
  rw [same] at fits ⊢
  rcases fetched : fetch source entry.key state with ⟨found, next⟩
  rw [fetched] at kept fits
  cases found with
  | none => exact ⟨kept, rfl⟩
  | some target =>
    dsimp only at fits
    have fitsLinked : (link other source bound target (next.mapReader see)).store.texts ⊆ texts := by
      split at fits <;> exact fits
    obtain ⟨keptLinked, sameLinked⟩ := linked target kept fitsLinked
    dsimp only
    rw [sameLinked]
    have sameStore : ((link read source bound target next).mapReader see).store =
      (link read source bound target next).store := rfl
    rw [sameStore]
    split <;> exact ⟨keptLinked, rfl⟩

theorem foldl_follow_mimics {bound : Nat}
    (linked : LinksAlike read other see source texts Holds bound)
    (own : ScriptKey) (entries : List IncludeEntry) (targets : List ScriptId)
    (keeps : state.Keeps Holds)
    (fits : (entries.foldl (follow other source bound own)
      (targets, state.mapReader see)).2.store.texts ⊆ texts) :
    (entries.foldl (follow read source bound own) (targets, state)).2.Keeps Holds ∧
      entries.foldl (follow other source bound own) (targets, state.mapReader see) =
        ((entries.foldl (follow read source bound own) (targets, state)).1,
          (entries.foldl (follow read source bound own) (targets, state)).2.mapReader see) := by
  induction entries generalizing targets state with
  | nil => exact ⟨keeps, rfl⟩
  | cons entry rest ih =>
    rw [List.foldl_cons] at fits
    obtain ⟨kept, same⟩ := follow_mimics mimics linked own targets entry keeps
      (List.Subset.trans (texts_foldl_follow other source bound own rest _) fits)
    rw [same] at fits
    rw [List.foldl_cons, List.foldl_cons, same]
    exact ih _ kept fits

theorem link_mimics (bound : Nat) : LinksAlike read other see source texts Holds bound := by
  induction bound with
  | zero => exact fun id state keeps _ => ⟨keeps, rfl⟩
  | succ bound ih =>
    intro id state keeps fits
    by_cases visited : state.visited.contains id
    · have old : (state.mapReader see).visited.contains id := visited
      rw [link, link, if_pos visited, if_pos old]
      exact ⟨keeps, rfl⟩
    · have new : ¬ (state.mapReader see).visited.contains id := visited
      have fitsBefore : state.store.texts ⊆ texts :=
        List.Subset.trans (texts_link other source (bound + 1) id (state.mapReader see)) fits
      obtain ⟨kept, same⟩ := readScript_mimics mimics id
        (show Keeps Holds { state with visited := id :: state.visited } from keeps) fitsBefore
      have sameRead : readScript other id { state.mapReader see with
          visited := id :: (state.mapReader see).visited } =
        (readScript read id { state with visited := id :: state.visited }).mapReader see := same
      cases listed : (readScript read id { state with visited := id :: state.visited }).store.get? id with
      | none =>
        have missing : (readScript other id { state.mapReader see with
            visited := id :: (state.mapReader see).visited }).store.get? id = none := by
          rw [sameRead]
          exact listed
        rw [link, link, if_neg visited, if_neg new]
        dsimp only
        rw [listed, missing]
        exact ⟨kept, sameRead⟩
      | some script =>
        have found : (readScript other id { state.mapReader see with
            visited := id :: (state.mapReader see).visited }).store.get? id = some script := by
          rw [sameRead]
          exact listed
        have warned := keeps_foldl_warn (fun fault : IncludeFault =>
          s!"{script.key.render}: {fault.message}") (IncludeHeader.read script.text).faults kept
        rw [link_unvisited other source bound new found rfl] at fits
        rw [sameRead, mapReader_foldl_warn] at fits
        obtain ⟨keptAll, sameAll⟩ := foldl_follow_mimics mimics ih script.key
          script.entries [] warned fits
        rw [← mapReader_foldl_warn, ← sameRead] at sameAll
        rw [link_unvisited read source bound visited listed rfl,
          link_unvisited other source bound new found sameAll]
        generalize script.entries.foldl (follow read source bound script.key) _ = reached at keptAll ⊢
        exact ⟨keptAll, rfl⟩

end Mimics

end LinkState

def Linked.mapReader {σ τ : Type} (see : σ → τ) (linked : Linked σ) : Linked τ where
  store := linked.store
  reader := see linked.reader
  order := linked.order
  edges := linked.edges
  loaded := linked.loaded
  asked := linked.asked
  diagnostics := linked.diagnostics

namespace ScriptStore

variable {σ τ : Type} {read : ScriptReader σ} {other : ScriptReader τ} {see : σ → τ}
  {source : ScriptSource} {texts : List String} {Holds : ScriptStore → σ → List ScriptKey → Prop}
  (mimics : read.Mimics other see source texts Holds) {store : ScriptStore} {reader : σ}

include mimics

theorem linkState_mimics (holds : Holds store reader []) {roots : List ScriptId}
    (fits : (store.linkState other (see reader) source roots).store.texts ⊆ texts) :
    (store.linkState read reader source roots).Keeps Holds ∧
      store.linkState other (see reader) source roots =
        (store.linkState read reader source roots).mapReader see := by
  induction roots using List.reverseRecOn with
  | nil => exact ⟨holds, rfl⟩
  | append_singleton roots root ih =>
    unfold linkState at ih fits ⊢
    rw [List.foldl_append] at fits
    obtain ⟨keeps, same⟩ := ih (List.Subset.trans (LinkState.texts_link other source _ root _) fits)
    rw [same] at fits
    rw [List.foldl_append, List.foldl_append, same]
    exact LinkState.link_mimics mimics _ root keeps fits

theorem link_mimics (holds : Holds store reader []) {roots : List ScriptId}
    (fits : (store.linkState other (see reader) source roots).store.texts ⊆ texts) :
    store.link other (see reader) source roots =
      (store.link read reader source roots).mapReader see := by
  have same := (linkState_mimics mimics holds fits).2
  unfold linkState at same
  unfold link
  dsimp only
  rw [same]
  rfl

end ScriptStore

end ScriptMigration
