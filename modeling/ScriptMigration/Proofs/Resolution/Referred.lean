import ScriptMigration.Proofs.Draft.Migrating
import ScriptMigration.Proofs.Resolution.Seen

/-! Resolved scripts refer to what the batch declares. What is done after the last sweep binds no names,
and the types that it notes are those that deferred descriptors lead to. -/
namespace ScriptMigration

namespace Surroundings

variable {around : Surroundings} {kinds : DeclKinds} {notes : Notes} {draft : Draft}
  {roles : NodeId → Role} {state : ResolutionState}

theorem Knows.concrete (knows : around.Knows kinds) (names : notes.Names kinds)
    (isDeclaration : Bool) {descriptor : Descriptor} (known : descriptor.Names kinds.isType) :
    (around.concrete notes isDeclaration descriptor).Names kinds.isType := by
  unfold Surroundings.concrete
  split
  · split
    · exact Descriptor.names_object
    · exact Descriptor.names_object
    · rename_i leads
      exact knows.follow names known leads
  · split <;> exact Descriptor.names_of_none rfl
  · split <;> exact Descriptor.names_of_none rfl
  · exact known

theorem Knows.owedFields (knows : around.Knows kinds) {marks : TypeMarks} {outer : Option NodeId}
    {field : OwedField} (listed : field ∈ around.owedFields marks outer) :
    field.type.Names kinds.isType := by
  unfold Surroundings.owedFields at listed
  rcases List.mem_append.1 listed with early | isMissing
  · rcases List.mem_append.1 early with isOuter | isForm
    · split at isOuter
      · rw [List.mem_singleton.1 isOuter]
        exact Descriptor.names_getD fun _ found => knows.declDescriptor? found
      · exact nomatch isOuter
    · split at isForm
      · rw [List.mem_singleton.1 isForm]
        refine Descriptor.names_getD fun _ found => ?_
        obtain ⟨type, _, rfl⟩ := Option.map_eq_some_iff.1 found
        exact Descriptor.names_of_none rfl
      · exact nomatch isForm
  · split at isMissing
    · rw [List.mem_singleton.1 isMissing]
      exact Descriptor.names_object
    · exact nomatch isMissing

theorem Knows.newFields (knows : around.Knows kinds) {type : Node} {entry : NodeId × OwedField}
    (listed : entry ∈ around.newFields draft type) : entry.2.type.Names kinds.isType := by
  unfold Surroundings.newFields at listed
  split at listed
  · obtain ⟨⟨field, plane⟩, among, rfl⟩ := List.mem_map.1 listed
    exact knows.owedFields (List.mem_of_mem_filter (List.fst_mem_of_mem_zipIdx among))
  · exact nomatch listed

theorem binding?_settle (id : NodeId) :
    (around.settle draft state).notes.binding? id = state.notes.binding? id := by
  rw [notes_settle]
  exact (Notes.foldl_describe _ _ id).2.2.1

theorem settle_names (knows : around.Knows kinds) (names : state.notes.Names kinds) :
    (around.settle draft state).notes.Names kinds := by
  intro id descriptor noted
  rw [notes_settle] at noted
  obtain ⟨kept, owed, _⟩ := Notes.foldl_describe (around.owed (around.undeferred draft state))
    (around.undeferred draft state).notes id
  by_cases isOwed : ∃ entry ∈ around.owed (around.undeferred draft state), entry.1 = id
  · obtain ⟨entry, listed, _, found⟩ := owed isOwed
    rw [found] at noted
    obtain ⟨type, _, among⟩ := List.mem_flatMap.1 listed
    exact Option.some.inj noted ▸ knows.newFields among
  · rw [kept fun entry listed same => isOwed ⟨entry, listed, same⟩] at noted
    obtain ⟨first, found, rfl⟩ := Option.map_eq_some_iff.1
      ((descriptor?_withoutDeferred _ id).symm.trans noted)
    exact knows.concrete names _ (names id first found)

end Surroundings

namespace ResolutionState.Referring

variable {around : Surroundings} {kinds : DeclKinds} {roles : NodeId → Role}
  {state : ResolutionState}

theorem tree (referring : state.Referring around kinds roles) (fits : state.Fits around roles)
    (clear : state.implicit = []) : state.root.Refers state.notes kinds around.script where
  nested := referring.layers.nested
  fits stands noted := by
    refine (referring.bindings stands noted).mono (.refl kinds) fun _ _ _ _ known => ?_
    rcases known with known | ⟨_, entry, listed, _⟩
    · exact known
    · rw [clear] at listed
      exact nomatch listed
  expression {setting node binding} stands noted := by
    have role := fits.tree.role node stands.mem
    rw [referring.bound noted] at role
    cases family : node.shape.family <;> rw [family] at role <;>
      first | rfl | exact nomatch role

theorem settle (referring : state.Referring around kinds roles) (fits : state.Fits around roles)
    (clear : state.implicit = []) (knows : around.Knows kinds) (outer : around.KnowsOuter)
    (draft : Draft) : (around.settle draft state).Refers kinds around.script ∧
      (around.settle draft state).root.InLayers ∧
      kinds.Rooted around.script (around.settle draft state).root := by
  have old {id : NodeId} {binding : Binding} (noted : state.notes.binding? id = some binding) :
      id.index < state.fresh := by
    by_contra large
    have role := fits.later id (Nat.le_of_not_lt large)
    rw [referring.bound noted] at role
    exact nomatch role
  have marks := Obligation.apply_adds state.obligations
  have pays : Node.Adds (around.payFields (around.undeferred draft state)) _ :=
    Surroundings.payFields_adds
  have shows := Node.withVisibility_adds
  have paid {node leaf : Node}
      (found : leaf ∈ around.paidFields (around.undeferred draft state) node) :
      node.shape.family.holds leaf.shape.family ∧ state.fresh ≤ leaf.id.index := by
    obtain ⟨entry, listed, rfl⟩ := List.mem_map.1 found
    obtain ⟨isType, large, _⟩ := Surroundings.newFields_cases outer listed
    rw [Shape.isType_eq] at isType
    rw [eq_of_beq isType]
    exact ⟨rfl, large⟩
  have none' (node : Node) : ∀ leaf ∈ ([] : List Node),
      node.shape.family.holds leaf.shape.family := fun _ absurd => nomatch absurd
  have marked := (referring.tree fits clear).mapUp marks.alters none'
    fun _ _ _ absurd => nomatch absurd
  have complete := marked.mapUp pays.alters (fun _ _ found => (paid found).1)
    fun _ _ leaf found => Option.eq_none_iff_forall_ne_some.2 fun _ noted =>
      absurd (paid found).2 (Nat.not_le_of_lt (old noted))
  have shown := complete.mapUp shows.alters none' fun _ _ _ absurd => nomatch absurd
  refine ⟨⟨.settle fits.tree.distinct fits.tree.small, ?_, ?_, ?_⟩, ?_, ?_⟩
  · rw [Surroundings.root_settle]
    exact shown.congr Surroundings.binding?_settle
  · exact fun id descriptor noted =>
      ⟨Surroundings.settle_undeferred outer id descriptor noted,
        Surroundings.settle_names knows referring.names id descriptor noted⟩
  · intro id binding noted
    rw [Surroundings.binding?_settle] at noted
    refine Nat.lt_of_lt_of_le (old noted) ?_
    exact Nat.le_mul_of_pos_left _ (by decide)
  · rw [Surroundings.root_settle]
    exact ((referring.layers.mapUp marks none').mapUp pays fun _ _ found => (paid found).1).mapUp
      shows none'
  · rw [Surroundings.root_settle]
    exact ((referring.rooted.mapUp referring.layers.nested marks.alters).mapUp marked.nested
      pays.alters).mapUp complete.nested shows.alters

end ResolutionState.Referring

namespace ScriptStore.Referring

variable {symbols : SymbolTable} {options : MigrationOptions} {store : ScriptStore}
  {id : ScriptId} {script : Script} {draft : Draft} {cache : MemberMemo}

/-- When a script of a batch is resolved, its notes refer to what the batch declares, and nothing that
was declared is lost. -/
theorem resolveDraft (referring : store.Referring) (found : store.draft? id = some draft)
    (prepared : draft.Prepared) (table : symbols.Foreign)
    (ownForm : ∀ form, script.form = some form → form.Foreign) (faithful : cache.Faithful symbols)
    {resolved : Draft} (isResolved : ((Surroundings.forScript symbols options store id script
      draft).resolveDraft draft cache).draft = resolved) :
    resolved.Refers store.kinds id ∧ resolved.Layered ∧ store.kinds.Rooted id resolved.root := by
  have formed := prepared.formed
  have static : (Surroundings.forScript symbols options store id script draft).Fits
      draft.root.roleOf draft.fresh := formed.surroundings_fit
  have knows : (Surroundings.forScript symbols options store id script draft).Knows store.kinds :=
    referring.knows_forScript found table ownForm
  have outer : (Surroundings.forScript symbols options store id script draft).KnowsOuter :=
    formed.knowsOuter
  have starts : ((Surroundings.forScript symbols options store id script draft).start draft
      cache).Referring _ _ _ := referring.start_referring found formed table ownForm faithful
  have underway : ((Surroundings.forScript symbols options store id script draft).start draft
      cache).Underway _ _ _ := formed.start_underway cache
  revert isResolved static knows outer starts underway
  generalize isAround : Surroundings.forScript symbols options store id script draft = around
  intro isResolved static knows outer starts underway
  have own : around.script = id := by rw [← isAround]; rfl
  have swept := starts.sweeps knows underway static around.options.maxAttempts
  have later := (underway.sweeps static around.options.maxAttempts).1
  have last := swept.sweep knows later.fits static later.older true
  have ends := later.sweep static true
  obtain ⟨refers, layers, rooted⟩ := last.settle ends.fits ends.clear knows outer draft
  rw [own] at refers rooted
  rw [← isResolved]
  exact ⟨refers, ⟨layers, (referring.layered found).retired⟩, rooted⟩

theorem resolve (referring : store.Referring) (resolving : store.Resolving symbols options cache)
    (listed : store.get? id = some script) (read : script.draft? = some draft)
    (prepared : draft.Prepared) (table : symbols.Foreign)
    (ownForm : ∀ form, script.form = some form → form.Foreign) :
    (store.resolve symbols options cache id).store.Referring ∧
      store.kinds.Le (store.resolve symbols options cache id).store.kinds ∧
      ∃ resolved, (store.resolve symbols options cache id).store.draft? id = some resolved ∧
        resolved.Refers (store.resolve symbols options cache id).store.kinds id := by
  have found : store.draft? id = some draft := Option.bind_eq_some_iff.2 ⟨script, listed, read⟩
  rw [(resolve_eq symbols options cache listed read).1]
  obtain ⟨refers, layered, rooted⟩ :=
    referring.resolveDraft found prepared table ownForm resolving.faithful rfl
  have grows := kinds_le_setDraft found rooted
  exact ⟨referring.setDraft found refers layered rooted, grows, _, draft?_setDraft listed,
    refers.mono grows⟩

end ScriptStore.Referring

end ScriptMigration
