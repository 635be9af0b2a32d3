import ScriptMigration.Proofs.Draft.Migrating
import ScriptMigration.Proofs.Draft.References
import ScriptMigration.Proofs.Migration.Complete
import ScriptMigration.Proofs.Migration.Prepared
import ScriptMigration.Proofs.Reshape.ReturnReferences

/-! What a migration gives refers to nothing that it lost. Scripts refer to each other while some of
them are resolved and others are not, so what they refer to is followed through every step: a name or a
type that is noted leads to a node of the right kind in the output of its script. The last changes to a
draft take parts from expressions and put marks on the root, and the types that they note are those of
other programs. -/
namespace ScriptMigration

theorem Node.Alters.ofPrune {f : Node → Node} (cuts : ∀ node : Node, f node = node ∨
    (f node).id = node.id ∧ node.shape.family = .expression ∧
      (f node).shape.family = .expression ∧ (f node).children = []) :
    Alters f fun _ => [] where
  id node := by
    rcases cuts node with same | ⟨same, _⟩
    · rw [same]
    · exact same
  family node := by
    rcases cuts node with same | ⟨_, family, family', _⟩
    · rw [same]
    · rw [family, family']
  kept node differs := by
    rcases cuts node with same | ⟨_, family, _⟩
    · rw [same]
      exact List.Subset.refl _
    · exact absurd family differs
  parts node part inside := by
    rcases cuts node with same | ⟨_, _, _, bare⟩
    · exact .inl (same ▸ inside)
    · rw [bare] at inside
      exact nomatch inside
  bare _ _ absurd := nomatch absurd

theorem Node.Carries.ofRoot {root new : Node} (id : new.id = root.id)
    (family : new.shape.family = root.shape.family) (children : new.children = root.children) :
    Carries (fun _ node node' => node' = node ∨ node = root ∧ node' = new) fun _ _ => False where
  id := by
    rintro setting old node (rfl | ⟨rfl, rfl⟩)
    · rfl
    · exact id
  family := by
    rintro setting old node (rfl | ⟨rfl, rfl⟩)
    · rfl
    · exact family
  kept := by
    rintro setting old node (rfl | ⟨rfl, rfl⟩) _ part inside
    · exact ⟨part, inside, .inl rfl⟩
    · exact ⟨part, children ▸ inside, .inl rfl⟩
  parts := by
    rintro setting old node (rfl | ⟨rfl, rfl⟩) part inside
    · exact .inl ⟨part, inside, .inl rfl⟩
    · exact .inl ⟨part, children ▸ inside, .inl rfl⟩
  below absurd := absurd.elim

theorem Notes.Settled.describeAll {α : Type} {notes : Notes} {kinds : DeclKinds}
    (settled : notes.Settled kinds) (entries : List α) (id : α → NodeId) (type : α → Descriptor)
    (known : ∀ entry, (type entry).isDeferred = false ∧ (type entry).Names kinds.isType) :
    (entries.foldl (fun notes entry => notes.describe (id entry) (type entry)) notes).Settled kinds ∧
      ∀ node, (entries.foldl (fun notes entry => notes.describe (id entry) (type entry))
        notes).binding? node = notes.binding? node := by
  induction entries generalizing notes with
  | nil => exact ⟨settled, fun _ => rfl⟩
  | cons first rest ih => exact ih (settled.describe _ (known first).1 (known first).2)

namespace Draft.Refers

variable {draft : Draft} {kinds : DeclKinds} {script : ScriptId}
  (refers : draft.Refers kinds script) (rooted : kinds.Rooted script draft.root)

include refers rooted

theorem prune {f : Node → Node} {notes : Notes} (cuts : ∀ node : Node, f node = node ∨
      (f node).id = node.id ∧ node.shape.family = .expression ∧
        (f node).shape.family = .expression ∧ (f node).children = [])
    (settled : notes.Settled kinds) (bindings : ∀ id, notes.binding? id = draft.notes.binding? id) :
    Refers { draft with root := draft.root.mapUp f, notes } kinds script ∧
      kinds.Rooted script (draft.root.mapUp f) := by
  have alters := Node.Alters.ofPrune cuts
  refine ⟨⟨refers.toTidy.prune fun node => (cuts node).imp_right fun cut => ⟨cut.1, cut.2.2.2⟩,
    ?_, settled, ?_⟩, rooted.mapUp refers.tree.nested alters⟩
  · exact (refers.tree.mapUp alters (fun _ _ absurd => nomatch absurd)
      fun _ _ _ absurd => nomatch absurd).congr bindings
  · exact fun noted => refers.bound ((bindings _).symm.trans noted)

theorem typeCreations (symbols : SymbolTable) : (draft.typeCreations symbols).1.Refers kinds script ∧
    kinds.Rooted script (draft.typeCreations symbols).1.root := by
  have noted := refers.settled.describeAll
    (draft.nodes.filterMap fun node =>
      (Creation.nodeType? symbols draft.notes node).map fun type => (node.id, type))
    Prod.fst (fun entry => .ofExternal entry.2) fun _ => ⟨rfl, Descriptor.names_of_none rfl⟩
  refine refers.prune rooted (fun node => ?_) noted.1 noted.2
  split
  · rename_i created
    refine .inr ⟨rfl, ?_, rfl, rfl⟩
    unfold Creation.nodeType? at created
    split at created
    · rename_i shape
      rw [shape]
      rfl
    · exact nomatch created
  · exact .inl rfl

theorem moveTexts (symbols : SymbolTable) (options : MigrationOptions) :
    (draft.moveTexts symbols options).1.Refers kinds script ∧
      kinds.Rooted script (draft.moveTexts symbols options).1.root := by
  have noted := refers.settled.describeAll
    (draft.nodes.filterMap fun node =>
      (LocalizedText.translated? symbols options draft.notes node).map fun text => (node.id, text))
    Prod.fst (fun _ => .ofPrimitive .string) fun _ => ⟨rfl, Descriptor.names_of_none rfl⟩
  refine refers.prune rooted (fun node => ?_) noted.1 noted.2
  dsimp only
  split
  · rename_i moved
    refine .inr ⟨rfl, ?_, rfl, rfl⟩
    obtain ⟨text, isText, _⟩ := Option.bind_eq_some_iff.1 moved
    unfold LocalizedText.translated? at isText
    split at isText
    · rename_i shape
      rw [shape]
      rfl
    · exact nomatch isText
  · exact .inl rfl

theorem markStatic (static : Bool) : (draft.markStatic static).Refers kinds script ∧
    kinds.Rooted script (draft.markStatic static).root := by
  have tidy := refers.toTidy.markStatic static
  revert tidy
  unfold Draft.markStatic
  split
  · rename_i decl shape
    generalize isNew : draft.root.withShape (.type { decl with
      marks := { decl.marks with static } }) = new
    have carries : Node.Carries (fun _ old node => node = old ∨ old = draft.root ∧ node = new) _ :=
      .ofRoot (by rw [← isNew]; rfl) (by rw [← isNew, shape]; rfl)
        (by rw [← isNew, Node.children, Node.children, shape]; rfl)
    intro tidy
    exact ⟨⟨tidy, refers.tree.carries carries (.inr ⟨rfl, rfl⟩) (fun absurd => absurd.elim)
      fun absurd => absurd.elim, refers.settled, refers.bound⟩,
      rooted.carries carries (.inr ⟨rfl, rfl⟩) refers.tree.nested⟩
  · exact fun _ => ⟨refers, rooted⟩

end Draft.Refers

namespace ScriptStore

variable {store other : ScriptStore} {id : ScriptId}

theorem draft?_mapDraft (store : ScriptStore) (f : Draft → Draft) (id other : ScriptId) :
    (store.mapDraft f id).draft? other =
      if other = id then (store.draft? other).map f else store.draft? other := by
  unfold mapDraft
  by_cases same : other = id
  · subst same
    rw [if_pos rfl]
    cases found : store.draft? other with
    | none => exact found
    | some draft =>
      obtain ⟨script, listed, _⟩ := exists_script found
      exact draft?_setDraft listed
  · rw [if_neg same]
    split
    · exact draft?_setDraft_of_ne same
    · rfl

theorem draft?_foldl_mapDraft (f : ScriptId → Draft → Draft) {ids : List ScriptId}
    (once : ids.Nodup) (store : ScriptStore) (other : ScriptId) :
    (ids.foldl (fun store id => store.mapDraft (f id) id) store).draft? other =
      if other ∈ ids then (store.draft? other).map (f other) else store.draft? other := by
  induction ids generalizing store with
  | nil => rfl
  | cons id rest ih =>
    obtain ⟨absent, once⟩ := List.nodup_cons.1 once
    rw [List.foldl_cons, ih once, draft?_mapDraft]
    by_cases same : other = id
    · subst same
      simp [absent]
    · simp [same]

theorem draft?_markStatics (store : ScriptStore) (id : ScriptId) :
    store.markStatics.1.draft? id =
      (store.draft? id).map (·.markStatic (store.statics.contains id)) := by
  have marked : store.markStatics.1.draft? id = _ := draft?_foldl_mapDraft
    (fun id draft => draft.markStatic (store.statics.contains id)) store.ids_nodup store id
  rw [marked]
  split
  · rfl
  · rename_i absent
    cases found : store.draft? id with
    | none => rfl
    | some draft =>
      obtain ⟨script, listed, _⟩ := exists_script found
      exact absurd (mem_ids_of_get? listed) absent

theorem ForeignForms.redrafted (forms : store.ForeignForms) (redrafted : store.Redrafted other) :
    other.ForeignForms := by
  intro id script listed form isForm
  obtain ⟨old, f, isOld, rfl⟩ := redrafted.exists_old listed
  rw [Script.form_redraft] at isForm
  exact forms id old isOld form isForm

end ScriptStore

namespace MigrationRun

variable {symbols : SymbolTable} {options : MigrationOptions} {run : MigrationRun}
  {done : List ScriptId} {id : ScriptId}

/-- What is known while the scripts of a batch are resolved: those that are done refer to what the
batch declares, and the others are prepared. -/
structure Refers (symbols : SymbolTable) (options : MigrationOptions) (run : MigrationRun)
    (done : List ScriptId) : Prop where
  resolving : run.store.Resolving symbols options run.cache
  forms : run.store.ForeignForms
  resolved : ∀ id ∈ done, ∀ draft, run.store.draft? id = some draft →
    draft.Refers run.store.kinds id ∧ draft.Layered
  pending : ∀ id, id ∉ done → ∀ draft, run.store.draft? id = some draft → draft.Prepared

namespace Refers

theorem referring (refers : run.Refers symbols options done) : run.store.Referring := by
  intro id draft found
  by_cases isDone : id ∈ done
  · exact .inr (refers.resolved id isDone draft found)
  · exact .inl (refers.pending id isDone draft found)

theorem resolve (refers : run.Refers symbols options done) (table : symbols.Foreign)
    (isPending : id ∉ done) : (run.resolve symbols options id).Refers symbols options (id :: done) := by
  have redrafted := ScriptStore.Redrafted.resolve run.store symbols options run.cache id
  cases found : run.store.draft? id with
  | none =>
    have same : run.store.resolve symbols options run.cache id = ⟨run.store, run.cache, {}, []⟩ := by
      unfold ScriptStore.resolve
      cases listed : run.store.get? id with
      | none => rfl
      | some script =>
        have unread : script.draft? = none := by
          rw [ScriptStore.draft?, listed] at found
          exact found
        dsimp only
        rw [unread]
    have stays : (run.resolve symbols options id).store = run.store ∧
        (run.resolve symbols options id).cache = run.cache := by
      rw [MigrationRun.resolve, same]
      exact ⟨rfl, rfl⟩
    refine ⟨stays.1 ▸ stays.2 ▸ refers.resolving, stays.1 ▸ refers.forms,
      fun other isDone draft isDraft => ?_, fun other isPending draft isDraft => ?_⟩ <;>
      rw [stays.1] at isDraft
    · rw [stays.1]
      rcases List.mem_cons.1 isDone with rfl | isDone
      · cases found.symm.trans isDraft
      · exact refers.resolved other isDone draft isDraft
    · exact refers.pending other (fun isDone => isPending (List.mem_cons_of_mem _ isDone)) draft isDraft
  | some draft =>
    have prepared := refers.pending id isPending draft found
    obtain ⟨script, listed, read⟩ := ScriptStore.exists_script found
    obtain ⟨referring, grows, resolved, isResolved, known⟩ := ScriptStore.Referring.resolve
      refers.referring refers.resolving listed read prepared table (refers.forms id script listed)
    have others : ∀ other, other ≠ id → (run.resolve symbols options id).store.draft? other =
        run.store.draft? other := fun other differs => by
      have unfolds := (ScriptStore.resolve_eq symbols options run.cache listed read).1
      rw [MigrationRun.resolve, unfolds, ScriptStore.draft?_setDraft_of_ne differs]
    refine ⟨.resolve refers.resolving found prepared, refers.forms.redrafted redrafted,
      fun other isDone draft' isDraft => ?_, fun other isPending draft' isDraft => ?_⟩
    · by_cases same : other = id
      · subst same
        obtain rfl := Option.some.inj (isResolved.symm.trans isDraft)
        exact ⟨known, referring.layered isDraft⟩
      · rw [others other same] at isDraft
        have isDone := (List.mem_cons.1 isDone).resolve_left same
        obtain ⟨before, layered⟩ := refers.resolved other isDone draft' isDraft
        exact ⟨before.mono grows, layered⟩
    · have differs : other ≠ id := fun same => isPending (same ▸ List.mem_cons_self)
      rw [others other differs] at isDraft
      exact refers.pending other (fun isDone => isPending (List.mem_cons_of_mem _ isDone)) draft'
        isDraft

theorem resolveAll (refers : run.Refers symbols options done) (table : symbols.Foreign)
    {order : List ScriptId} (once : order.Nodup) (apart : ∀ id ∈ order, id ∉ done) :
    (order.foldl (·.resolve symbols options ·) run).Refers symbols options
      (order.reverse ++ done) := by
  induction order generalizing run done with
  | nil => exact refers
  | cons id rest ih =>
    obtain ⟨absent, once⟩ := List.nodup_cons.1 once
    have first := refers.resolve table (apart id List.mem_cons_self)
    have isApart : ∀ other ∈ rest, other ∉ id :: done := by
      intro other listed isDone
      rcases List.mem_cons.1 isDone with rfl | isDone
      · exact absent listed
      · exact apart other (List.mem_cons_of_mem _ listed) isDone
    rw [List.reverse_cons, List.append_assoc]
    exact ih first once isApart

end Refers

end MigrationRun

namespace Migrator

variable (migrator : Migrator) {run : MigrationRun} {order : List ScriptId}

theorem finishedStore_refers {done : List ScriptId}
    (refers : run.Refers migrator.symbols migrator.options done) (all : order ⊆ done)
    (once : order.Nodup) {id : ScriptId} (among : id ∈ order) {draft : Draft}
    (found : (migrator.finishedStore run order).draft? id = some draft) :
    draft.Refers run.store.kinds id ∧ run.store.kinds.Rooted id draft.root := by
  rw [finishedStore, ScriptStore.draft?_markStatics] at found
  obtain ⟨given, isGiven, rfl⟩ := Option.map_eq_some_iff.1 found
  rw [ScriptStore.draft?_foldl_mapDraft
    (fun _ draft => (draft.returnValues migrator.options.returnLocalName).1) once, if_pos among]
    at isGiven
  obtain ⟨old, isOld, rfl⟩ := Option.map_eq_some_iff.1 isGiven
  obtain ⟨known, layered⟩ := refers.resolved id (all among) old isOld
  have rooted := ScriptStore.rooted_kinds isOld
  exact (known.returnValues layered.layers _).markStatic
    (known.rooted_returnValues layered.layers _ rooted) _

theorem finish_refers {done : List ScriptId}
    (refers : run.Refers migrator.symbols migrator.options done) (all : order ⊆ done)
    (once : order.Nodup) (sources : List (ScriptId × ParsedModule)) {result : ScriptResult}
    (listed : result ∈ (migrator.finish run order sources).scripts) :
    result.draft.Refers run.store.kinds result.id ∧
      run.store.kinds.Rooted result.id result.draft.root := by
  have unfolds : ∃ returns statics, (migrator.finish run order sources).scripts =
      order.filterMap (migrator.assemble { run with store := migrator.finishedStore run order }
        sources returns statics) := ⟨_, _, rfl⟩
  obtain ⟨returns, statics, whole⟩ := unfolds
  rw [whole] at listed
  obtain ⟨id, among, assembled⟩ := List.mem_filterMap.1 listed
  unfold assemble at assembled
  obtain ⟨script, isScript, assembled⟩ := Option.bind_eq_some_iff.1 assembled
  obtain ⟨draft, isDraft, assembled⟩ := Option.bind_eq_some_iff.1 assembled
  obtain rfl := Option.some.inj assembled
  have found : (migrator.finishedStore run order).draft? id = some draft :=
    Option.bind_eq_some_iff.2 ⟨script, isScript, isDraft⟩
  obtain ⟨known, rooted⟩ := migrator.finishedStore_refers refers all once among found
  obtain ⟨typed, typedRooted⟩ := known.typeCreations rooted migrator.symbols
  exact typed.moveTexts typedRooted migrator.symbols migrator.options

section Linked

variable {σ : Type} {linked : Linked σ}

theorem reshapedRun_refers (prepared : linked.store.Prepared) (forms : linked.store.ForeignForms)
    (once : linked.order.Nodup) :
    (migrator.reshapedRun linked).Refers migrator.symbols migrator.options [] := by
  have reshaped : (migrator.reshapedRun linked).store.Prepared := by
    intro id draft found
    have drafts := ScriptStore.draft?_foldl_mapDraft (fun _ => Draft.reshape) once linked.store id
    rw [reshapedRun, drafts] at found
    split at found
    · obtain ⟨old, isOld, rfl⟩ := Option.map_eq_some_iff.1 found
      exact (prepared id old isOld).reshape
    · exact prepared id draft found
  exact ⟨.begin _ reshaped,
    forms.redrafted (.foldl (fun store id => .mapDraft store _ id) linked.order linked.store),
    fun _ absurd => (nomatch absurd), fun id _ => reshaped id⟩

abbrev resolvedKinds (linked : Linked σ) : DeclKinds := (migrator.resolvedRun linked).store.kinds

theorem resolvedRun_refers (prepared : linked.store.Prepared) (forms : linked.store.ForeignForms)
    (once : linked.order.Nodup) (table : migrator.symbols.Foreign) :
    (migrator.resolvedRun linked).Refers migrator.symbols migrator.options
      (linked.order.reverse ++ []) :=
  (migrator.reshapedRun_refers prepared forms once).resolveAll table once
    fun _ _ absurd => nomatch absurd

theorem accepts_of_known {decl : DeclRef}
    (known : (migrator.resolvedKinds linked).isType decl ∨
      (migrator.resolvedKinds linked).isMember decl) :
    decl.script ∈ linked.store.ids.filter linked.store.accepts := by
  have read : ∃ draft, (migrator.resolvedRun linked).store.draft? decl.script = some draft := by
    rcases known with ⟨draft, found, _⟩ | ⟨draft, found, _⟩ <;> exact ⟨draft, found⟩
  obtain ⟨draft, found⟩ := read
  obtain ⟨script, listed, isDraft⟩ := ScriptStore.exists_script found
  obtain ⟨old, f, isOld, rfl⟩ := (migrator.resolvedRun_redrafted linked).exists_old listed
  rw [Script.draft?_redraft] at isDraft
  obtain ⟨draft, isDraft, _⟩ := Option.map_eq_some_iff.1 isDraft
  refine List.mem_filter.2 ⟨ScriptStore.mem_ids_of_get? isOld, ?_⟩
  rw [ScriptStore.accepts, isOld]
  unfold Script.draft? at isDraft
  split at isDraft
  · rename_i reading
    simp [Script.isValid, Script.faults?, reading]
  · cases isDraft

end Linked

end Migrator

namespace Migration

variable (migration : Migration)

def Has (decl : DeclRef) (kind : Place → Prop) : Prop :=
  ∃ result ∈ migration.scripts, result.id = decl.script ∧
    ∃ place ∈ result.draft.root.places, place.node.id = decl.node ∧ kind place

def Resolves (result : ScriptResult) (place : Place) : Binding → Prop
  | .returnValue decl => ∃ method ∈ place.method?, method.id = decl
  | .localVar decl => ∃ method ∈ place.method?, ∃ other ∈ result.draft.root.places,
      other.node.id = decl ∧ other.node.shape.family = .localVar ∧ other.method? = some method
  | .param decl => ∃ method ∈ place.method?, ∃ other ∈ result.draft.root.places,
      other.node.id = decl ∧ other.node.shape.family = .param ∧ other.method? = some method
  | .member decl | .outer decl => decl.script = result.id ∧
      migration.Has decl fun other => ∃ type ∈ other.parent?, type.shape.isType
  | .dependency decl => decl.script ≠ result.id ∧ migration.Has decl fun other =>
      other.node.shape.isType ∨ ∃ type ∈ other.parent?, type.shape.isType
  | _ => True

/-- What is noted at a place leads to what the migration gave. -/
structure Refers (result : ScriptResult) (place : Place) : Prop where
  binding : ∀ binding, result.draft.notes.binding? place.node.id = some binding →
    migration.Resolves result place binding
  concrete : ∀ descriptor, result.draft.notes.descriptor? place.node.id = some descriptor →
    descriptor.isDeferred = false
  type : ∀ descriptor, result.draft.notes.descriptor? place.node.id = some descriptor →
    ∀ decl ∈ descriptor.scriptType?, migration.Has decl (·.node.shape.isType)

section Refers

variable {migration} {kinds : DeclKinds}
  (has : ∀ decl, kinds.isType decl ∨ kinds.isMember decl →
    ∃ result ∈ migration.scripts, result.id = decl.script)
  (rooted : ∀ result ∈ migration.scripts, kinds.Rooted result.id result.draft.root)

include has rooted

theorem has_type {decl : DeclRef} (known : kinds.isType decl) :
    migration.Has decl (·.node.shape.isType) := by
  obtain ⟨result, listed, own⟩ := has decl (.inl known)
  obtain ⟨script, id⟩ := decl
  subst own
  obtain ⟨node, inside, isNode, isType⟩ := (rooted result listed).type known
  obtain ⟨setting, stands⟩ := Node.exists_stands inside
  obtain ⟨place, found, rfl, _⟩ := stands.exists_place
  refine ⟨result, listed, rfl, place, found, isNode, ?_⟩
  dsimp only
  rw [Shape.isType_eq, isType]
  rfl

theorem has_member {decl : DeclRef} (known : kinds.isMember decl) :
    migration.Has decl fun place => ∃ type ∈ place.parent?, type.shape.isType := by
  obtain ⟨result, listed, own⟩ := has decl (.inr known)
  obtain ⟨script, id⟩ := decl
  subst own
  obtain ⟨setting, node, stands, isNode, isPart⟩ := (rooted result listed).member known
  obtain ⟨place, found, rfl, rfl⟩ := stands.exists_place
  obtain ⟨type, isParent, family⟩ := Option.map_eq_some_iff.1 isPart
  exact ⟨result, listed, rfl, place, found, isNode, type, isParent,
    by rw [Shape.isType_eq, family]; rfl⟩

theorem refers_at {result : ScriptResult} (refers : result.draft.Refers kinds result.id)
    {place : Place} (found : place ∈ result.draft.root.places) : migration.Refers result place := by
  refine ⟨fun binding noted => ?_, fun descriptor noted => (refers.settled _ _ noted).1,
    fun descriptor noted decl named =>
      has_type has rooted ((refers.settled _ _ noted).2 decl named)⟩
  have fits := refers.tree.fits (Node.stands_of_place found) noted
  have declared {family : Shape.Family} {decl owner : NodeId}
      (inMethod : place.setting.method = some owner)
      (declares : result.draft.root.Declares family decl owner) : ∃ method ∈ place.method?,
        ∃ other ∈ result.draft.root.places, other.node.id = decl ∧
          other.node.shape.family = family ∧ other.method? = some method := by
    obtain ⟨setting, node, stands, isNode, isFamily, around⟩ := declares
    obtain ⟨other, lies, rfl, rfl⟩ := stands.exists_place
    have same := Node.method?_eq refers.distinct lies found (around.trans inMethod.symm)
    obtain ⟨method, isMethod, _⟩ := Option.map_eq_some_iff.1 inMethod
    exact ⟨method, isMethod, other, lies, isNode, isFamily, same.trans isMethod⟩
  cases binding with
  | returnValue decl => exact Option.map_eq_some_iff.1 fits
  | localVar decl | param decl =>
    obtain ⟨owner, inMethod, declares⟩ := fits
    exact declared inMethod declares
  | member decl | outer decl => exact ⟨fits.1, has_member has rooted fits.2⟩
  | dependency decl =>
    refine ⟨fits.1, ?_⟩
    rcases fits.2 with isType | isMember
    · obtain ⟨other, listed, own, at', lies, isNode, kind⟩ := has_type has rooted isType
      exact ⟨other, listed, own, at', lies, isNode, .inl kind⟩
    · obtain ⟨other, listed, own, at', lies, isNode, kind⟩ := has_member has rooted isMember
      exact ⟨other, listed, own, at', lies, isNode, .inr kind⟩
  | _ => trivial

end Refers

end Migration

theorem SymbolTable.empty_foreign : SymbolTable.empty.Foreign := by
  constructor <;> simp [SymbolTable.empty]

namespace MigrationSession

variable {symbols : SymbolTable} {options : MigrationOptions} {session : MigrationSession}

/-- What stays as it is while a session works: its symbols and options, and that what is cached came
from parsing. -/
structure Parses (symbols : SymbolTable) (options : MigrationOptions) (session : MigrationSession) :
    Prop where
  symbols : session.migrator.symbols = symbols
  options : session.migrator.options = options
  parsed : session.migrator.cache.Parsed

theorem parsed_migrate {migrator : Migrator} (parsed : migrator.cache.Parsed) (interrupt : Interrupt)
    (held : ModuleCache.Holding) (inputs : List BatchEntry) (source : ScriptSource) :
    (migrator.migrate interrupt held inputs source).cache.Parsed := by
  cases starts : interrupt {} with
  | true =>
    unfold Migrator.migrate
    rw [if_pos starts]
    exact parsed
  | false =>
    rw [migrator.migrate_eq interrupt held inputs source starts]
    exact (ScriptStore.linkInputs_parses inputs parsed held source).2

theorem ofHistory_parses {history : List SessionEvent}
    (isSession : ofHistory symbols options history = session) : session.Parses symbols options := by
  subst isSession
  have keeps {session : MigrationSession} (parses : session.Parses symbols options)
      (event : SessionEvent) : (session.perform event).Parses symbols options := by
    cases event with
    | migrate | migrateOne =>
      exact ⟨parses.symbols, parses.options, parsed_migrate parses.parsed _ _ _ _⟩
    | keep | drop | cancel | reset => exact ⟨parses.symbols, parses.options, parses.parsed⟩
  have lasts (session : MigrationSession) (parses : session.Parses symbols options) :
      (history.foldl perform session).Parses symbols options := by
    induction history generalizing session with
    | nil => exact parses
    | cons event rest ih => exact ih _ (keeps parses event)
  exact lasts _ ⟨rfl, rfl, fun _ absurd => nomatch absurd⟩

/-- Whatever a session did before, a migration that is not stopped gives scripts in which every name
and every type that is noted leads to a node of the right kind, in the same script or in another one
that it gives; and no type is left to be looked up. -/
theorem migrate_refers {history : List SessionEvent} {inputs : List BatchEntry}
    {source : ScriptSource} {stop : Interrupt} (table : symbols.Foreign)
    (forms : ∀ input ∈ inputs, ∀ form, input.form = some form → form.Foreign)
    (isSession : ofHistory symbols options history = session)
    (runs : ∀ step, (session.migrate stop inputs source).1.result ≠ .error (.cancelled step)) :
    ∃ migration, (session.migrate stop inputs source).1.result = .ok migration ∧
      (migration.scripts.map (·.id)).Nodup ∧
      ∀ result ∈ migration.scripts, result.draft.root.Distinct ∧
        ∀ place ∈ result.draft.root.places, migration.Refers result place := by
  obtain ⟨rfl, rfl, parsed⟩ := ofHistory_parses isSession
  obtain ⟨isOk, _⟩ := Migrator.migrate_of_runs _ _ _ _ _ runs
  refine ⟨_, isOk, ?_⟩
  generalize isLinked : session.migrator.linkedBatch session.holds inputs source = linked
  have prepared := (ScriptStore.linkInputs_parses inputs parsed session.holds source).1
  have foreign := ScriptStore.linkInputs_forms forms (CachingReader.read session.holds)
    { cache := session.migrator.cache } source
  have perm := ScriptStore.order_linkInputs_perm inputs (CachingReader.read session.holds)
    { cache := session.migrator.cache } source
  have finished := session.migrator.finish_resolvedRun _ isLinked linked.reader.sources
  unfold Migrator.linkedBatch at isLinked
  rw [isLinked] at prepared foreign perm
  have once : linked.order.Nodup := perm.nodup_iff.2 (linked.store.ids_nodup.filter _)
  have refers := session.migrator.resolvedRun_refers prepared foreign once table
  have all : linked.order ⊆ linked.order.reverse ++ [] := by simp
  obtain ⟨ids, _⟩ := finished
  have results : ∀ result ∈ (session.migrator.finish (session.migrator.resolvedRun linked)
      linked.order linked.reader.sources).scripts, _ ∧ _ := fun result listed =>
    session.migrator.finish_refers refers all once linked.reader.sources listed
  generalize session.migrator.finish (session.migrator.resolvedRun linked) linked.order
    linked.reader.sources = migration at ids results
  refine ⟨ids ▸ once, fun result listed =>
    ⟨(results result listed).1.distinct, fun place found => ?_⟩⟩
  refine Migration.refers_at (fun decl known => ?_) (fun other inside => (results other inside).2)
    (results result listed).1 found
  have inOrder := perm.mem_iff.2 (session.migrator.accepts_of_known known)
  rw [← ids] at inOrder
  exact List.mem_map.1 inOrder

def countingBatch : List BatchEntry :=
  [{ key := ⟨"Lib", "Counter"⟩
     text := "Public Count As Integer\nFunction Last\nLast = Count\nEnd Function" },
    { key := ⟨"Lib", "User"⟩
      text := "' including script - Lib:Counter\nSub Use\nx = Count + Last\nEnd Sub" }]

theorem migrate_refers_counting : ∃ session,
    SymbolTable.empty.Foreign ∧
    (∀ input ∈ countingBatch, ∀ form, input.form = some form → form.Foreign) ∧
    ofHistory .empty {} sharedHistory = session ∧
    (∀ step, (session.migrate (fun _ => false) countingBatch {}).1.result ≠
      .error (.cancelled step)) ∧
    ∃ migration, (session.migrate (fun _ => false) countingBatch {}).1.result = .ok migration ∧
      (migration.scripts.map (·.id)).Nodup ∧
      ∀ result ∈ migration.scripts, result.draft.root.Distinct ∧
        ∀ place ∈ result.draft.root.places, migration.Refers result place := by
  have forms : ∀ input ∈ countingBatch, ∀ form, input.form = some form → form.Foreign := by
    intro input listed form given
    have plain : ∀ input ∈ countingBatch, input.form.isNone := by
      simp [countingBatch]
    rw [Option.isNone_iff_eq_none.1 (plain input listed)] at given
    exact nomatch given
  obtain ⟨_, isOk⟩ := (ofHistory .empty {} sharedHistory).exists_migration rfl (fun _ => rfl)
    countingBatch {}
  have runs : ∀ step, ((ofHistory .empty {} sharedHistory).migrate (fun _ => false) countingBatch
      {}).1.result ≠ .error (.cancelled step) := fun step stopped =>
    nomatch isOk.symm.trans stopped
  exact ⟨_, SymbolTable.empty_foreign, forms, rfl, runs,
    migrate_refers SymbolTable.empty_foreign forms rfl runs⟩

end MigrationSession

end ScriptMigration
