import ScriptMigration.Proofs.Draft.Prepared
import ScriptMigration.Proofs.Resolution.Convergence
import ScriptMigration.Proofs.Resolution.Taken
import ScriptMigration.Proofs.Script.Store

/-! What resolving a script comes to. The scripts of a batch are resolved one after the other, each
once; whatever was resolved before, the sweeps over the next script let its declarations rise until
one of them finds out nothing, and the resolved script has nothing open. -/
namespace ScriptMigration

/-- What becomes of a script of a store that could be read. -/
theorem ScriptStore.resolve_eq {store : ScriptStore} {id : ScriptId} {script : Script}
    {draft : Draft} (symbols : SymbolTable) (options : MigrationOptions) (cache : MemberMemo)
    (listed : store.get? id = some script) (read : script.draft? = some draft) :
    (store.resolve symbols options cache id).store = store.setDraft id
        ((Surroundings.forScript symbols options store id script draft).resolveDraft draft
          cache).draft ∧
      (store.resolve symbols options cache id).cache =
        ((Surroundings.forScript symbols options store id script draft).resolveDraft draft
          cache).cache ∧
      (store.resolve symbols options cache id).outcome =
        ((Surroundings.forScript symbols options store id script draft).resolveDraft draft
          cache).outcome := by
  unfold resolve
  rw [listed]
  dsimp only
  rw [read]
  exact ⟨rfl, rfl, rfl⟩

namespace ResolutionState.Underway

variable {around : Surroundings} {roles : NodeId → Role} {state : ResolutionState} {bound : Nat}

theorem sweep_faithful (underway : state.Underway around roles bound)
    (static : around.Fits roles bound) (final : Bool)
    (faithful : state.cache.Faithful around.symbols) :
    (around.sweep final state).cache.Faithful around.symbols := by
  have started := underway.fits.record state.cache state.warnings state.obligations false
  have walked : (around.walk final state.root.placesUp
      { state with changed := false }).cache.Faithful around.symbols := by
    refine started.walk_induction (motive := fun after => after.cache.Faithful around.symbols) final
      static underway.older (fun _ listed => listed) faithful ?_
    intro before place fits older sameRoot listed known
    exact (fits.visit_touches final static older (sameRoot ▸ listed)).faithful known
  rw [Surroundings.sweep, ResolutionState.cache_settleImplicit]
  exact walked

theorem sweeps_faithful (underway : state.Underway around roles bound)
    (static : around.Fits roles bound) (faithful : state.cache.Faithful around.symbols)
    (attempts : Nat) : (around.sweeps attempts state).2.cache.Faithful around.symbols :=
  underway.sweeps_induction static (motive := (·.cache.Faithful around.symbols)) faithful
    (fun underway faithful => underway.sweep_faithful static false faithful) attempts

end ResolutionState.Underway

theorem Surroundings.settle_undeferred {around : Surroundings} {draft : Draft}
    {state : ResolutionState} (knows : around.KnowsOuter) :
    (around.settle draft state).notes.Undeferred := by
  intro id descriptor noted
  rw [notes_settle] at noted
  obtain ⟨unlisted, listed, -⟩ := Notes.foldl_describe (around.owed (around.undeferred draft state))
    (around.undeferred draft state).notes id
  by_cases owed : ∃ entry ∈ around.owed (around.undeferred draft state), entry.1 = id
  · obtain ⟨entry, among, -, described⟩ := listed owed
    obtain rfl := Option.some.inj (noted.symm.trans described)
    obtain ⟨type, -, owes⟩ := List.mem_flatMap.1 among
    have concrete := (newFields_cases knows owes).2.2
    cases found : entry.2.type <;> simp_all [Descriptor.isConcrete, Descriptor.isDeferred]
  · rw [unlisted fun entry among same => owed ⟨entry, among, same⟩] at noted
    change (around.withoutDeferred _ _).descriptor? id = some descriptor at noted
    rw [descriptor?_withoutDeferred] at noted
    obtain ⟨old, -, rfl⟩ := Option.map_eq_some_iff.1 noted
    exact concrete_known _ old

/-- The stores and caches that come up while the prepared scripts of a batch are resolved, each once
and in any order. -/
inductive ScriptStore.Resolving (symbols : SymbolTable) (options : MigrationOptions) :
    ScriptStore → MemberMemo → Prop where
  | begin {store : ScriptStore} (capacity : Nat)
      (prepared : ∀ id draft, store.draft? id = some draft → draft.Prepared) :
      Resolving symbols options store (.withCapacity capacity)
  | resolve {store : ScriptStore} {cache : MemberMemo} {id : ScriptId} {draft : Draft}
      (resolving : Resolving symbols options store cache) (pending : store.draft? id = some draft)
      (prepared : draft.Prepared) :
      Resolving symbols options (store.resolve symbols options cache id).store
        (store.resolve symbols options cache id).cache

namespace ScriptStore.Resolving

variable {symbols : SymbolTable} {options : MigrationOptions} {store : ScriptStore}
  {cache : MemberMemo}

theorem faithful (resolving : store.Resolving symbols options cache) : cache.Faithful symbols := by
  induction resolving with
  | begin capacity _ => exact MemberMemo.withCapacity_faithful capacity
  | @resolve store cache id draft _ pending prepared known =>
    obtain ⟨script, listed, read⟩ := exists_script pending
    obtain ⟨-, same, -⟩ := resolve_eq symbols options cache listed read
    have formed := prepared.formed
    have static : (Surroundings.forScript symbols options store id script draft).Fits _ _ :=
      formed.surroundings_fit
    have started : ResolutionState.Underway _
        (Surroundings.forScript symbols options store id script draft) _ _ :=
      formed.start_underway cache
    rw [same]
    exact (started.sweeps static _).1.sweep_faithful static true
      (started.sweeps_faithful static known _)

/-- No script that can be seen has anything that has to be looked up. -/
theorem undeferred (resolving : store.Resolving symbols options cache) {id : ScriptId}
    {draft : Draft} (found : store.draft? id = some draft) : draft.notes.Undeferred := by
  induction resolving generalizing id draft with
  | begin _ prepared =>
    intro id descriptor noted
    rw [(prepared _ _ found).formed.unknown] at noted
    simp [Notes.descriptor?] at noted
  | @resolve store cache other draft' _ pending prepared ih =>
    obtain ⟨script, listed, read⟩ := exists_script pending
    rw [(resolve_eq symbols options cache listed read).1] at found
    by_cases same : id = other
    · subst same
      rw [draft?_setDraft listed] at found
      obtain rfl := Option.some.inj found
      exact Surroundings.settle_undeferred prepared.formed.knowsOuter
    · rw [draft?_setDraft_of_ne same] at found
      exact ih found

end ScriptStore.Resolving

section Moments

variable {around : Surroundings} {roles : NodeId → Role} {state : ResolutionState} {bound : Nat}

/-- The states that a visit to a place goes through: what is found out about the node, then what
flows into declarations one after the other. -/
def Surroundings.moments (around : Surroundings) (final : Bool) (state : ResolutionState)
    (place : Place) : List ResolutionState :=
  state :: (around.inflows (around.judge final place state).notes place.node).scanl around.pour
      (around.judge final place state) ++ [around.sweepNode final state place]

theorem ResolutionState.Fits.scanl_ascends (fits : state.Fits around roles)
    (static : around.Fits roles bound) {flows : List Inflow}
    (plain : ∀ flow ∈ flows, Role.Plain roles state.fresh flow.decl) {last : ResolutionState}
    (ends : Ascends around roles (flows.foldl around.pour state) last) :
    (flows.scanl around.pour state ++ [last]).IsChain (Ascends around roles) := by
  induction flows generalizing state with
  | nil => exact List.isChain_pair.2 ends
  | cons flow rest ih =>
    obtain ⟨next, evolves⟩ := fits.pourAll_evolves static [flow] fun other among =>
      plain other (by rw [List.mem_singleton.1 among]; exact List.mem_cons_self)
    have later := ih next (fun other among =>
      (plain other (List.mem_cons_of_mem _ among)).mono evolves.fresh) ends
    rw [List.scanl_cons, List.cons_append, List.isChain_cons]
    refine ⟨fun first isFirst => ?_, later⟩
    obtain rfl : around.pour state flow = first := by
      cases rest <;> simpa using isFirst
    exact .ofEvolves fits next evolves

theorem ResolutionState.Ready.moments_ascend (ready : state.Ready around roles bound)
    (static : around.Fits roles bound) {before later : List Place} {place : Place}
    (split : state.root.placesUp = before ++ place :: later) :
    (around.moments false (around.walk false before state) place).IsChain
      (Ascends around roles) := by
  have inside : ∀ other ∈ before, other ∈ state.root.placesUp := by
    intro other among
    rw [split]
    exact List.mem_append_left _ among
  obtain ⟨fits, evolves⟩ := ready.fits.walk false static ready.older inside
  have older := Nat.le_trans ready.older evolves.fresh
  have here : place ∈ (around.walk false before state).root.placesUp := by
    rw [evolves.root, split]
    exact List.mem_append_right _ List.mem_cons_self
  obtain ⟨nextFits, visit⟩ := fits.visit false static older here
  obtain ⟨judgedFits, judged⟩ := fits.judge static here false
  have node : place.node ∈
      (around.judge false place (around.walk false before state)).root.descendants := by
    rw [judged.root]
    exact Node.node_mem_of_mem_placesUp here
  have plain : ∀ flow ∈ around.inflows _ place.node, Role.Plain roles _ flow.decl := fun _ among =>
    judgedFits.inflows_plain static (Nat.le_trans older judged.fresh) node among
  obtain ⟨pouredFits, poured⟩ := judgedFits.pourAll_evolves static _ plain
  rw [Surroundings.moments, List.cons_append, List.isChain_cons]
  refine ⟨fun first isFirst => ?_, judgedFits.scanl_ascends static plain ?_⟩
  · obtain rfl : around.judge false place (around.walk false before state) = first := by
      cases flows : around.inflows
        (around.judge false place (around.walk false before state)).notes place.node <;>
      simpa [flows] using isFirst
    exact .ofEvolves fits judgedFits judged
  · rw [Surroundings.sweepNode_eq] at nextFits ⊢
    refine .ofEvolves pouredFits nextFits (pouredFits.fill_evolves ?_ false)
    rw [poured.root]
    exact node

end Moments

open ResolutionState (Ascends) in
/-- Sweep after sweep, beginning with `start`, the declarations of a script rise until a sweep finds
out nothing. -/
structure Surroundings.Settles (around : Surroundings) (roles : NodeId → Role)
    (start : ResolutionState) : Prop where
  /-- Every single update of a sweep lets declarations rise. -/
  updates : ∀ count before place later,
    ((around.sweep false)^[count] start).root.placesUp = before ++ place :: later →
      (around.moments false (around.walk false before
        { (around.sweep false)^[count] start with changed := false }) place).IsChain
          (Ascends around roles)
  rises : ∀ first count, Ascends around roles ((around.sweep false)^[first] start)
    ((around.sweep false)^[first + count] start)
  ends : ∃ count, ((around.sweep false)^[count + 1] start).changed = false
  /-- A sweep that finds out nothing leaves the tree and its notes, and so do all after it. -/
  still : ∀ count, ((around.sweep false)^[count + 1] start).changed = false →
    ((around.sweep false)^[count] start).Same ((around.sweep false)^[count + 1] start) ∧
      ∀ later, ((around.sweep false)^[count + later + 1] start).changed = false

theorem ResolutionState.Ready.settles {around : Surroundings} {roles : NodeId → Role}
    {start : ResolutionState} {bound : Nat} (ready : start.Ready around roles bound)
    (static : around.Fits roles bound) (closed : around.Closed) (clear : start.implicit = []) :
    around.Settles roles start := by
  refine ⟨fun count before place later split => ?_, fun first count => ?_, ?_,
    fun count unchanged => ?_⟩
  · exact ((ready.iterate static closed clear count).1.begin false).moments_ascend static split
  · obtain ⟨readyFirst, clearFirst⟩ := ready.iterate static closed clear first
    rw [Nat.add_comm, Function.iterate_add_apply]
    exact readyFirst.iterate_ascends static closed clearFirst count
  · obtain ⟨count, -, unchanged⟩ := ready.exists_unchanged static closed
    exact ⟨count, unchanged⟩
  · obtain ⟨readyHere, clearHere⟩ := ready.iterate static closed clear count
    rw [Function.iterate_succ_apply'] at unchanged ⊢
    refine ⟨(readyHere.sweep_unchanged static closed clearHere unchanged).1, fun later => ?_⟩
    rw [show count + later + 1 = later + 1 + count by omega, Function.iterate_add_apply]
    exact readyHere.unchanged_onwards static closed clearHere unchanged later

section Resolve

variable {symbols : SymbolTable} {options : MigrationOptions} {store : ScriptStore}
  {cache : MemberMemo} {id : ScriptId} {script : Script} {draft : Draft}

/-- Whichever scripts of a batch are resolved already, the sweeps over the next one settle, and they
are told to have converged if enough of them are allowed. -/
theorem ScriptStore.Resolving.settles_and_converges (resolving : store.Resolving symbols options cache)
    (table : symbols.Undeferred) (listed : store.get? id = some script)
    (read : script.draft? = some draft) (prepared : draft.Prepared)
    (ownForm : ∀ form, script.form = some form → form.Undeferred) :
    (Surroundings.forScript symbols options store id script draft).Settles draft.root.roleOf
        ((Surroundings.forScript symbols options store id script draft).start draft cache) ∧
      ∃ enough, ∀ attempts, enough ≤ attempts → (store.resolve symbols
        { options with maxAttempts := attempts } cache id).outcome.converged := by
  have formed := prepared.formed
  have others : store.UndeferredBut id := fun other draft' _ found => resolving.undeferred found
  refine ⟨(formed.start_ready resolving.faithful).settles formed.surroundings_fit
    (Surroundings.forScript_closed table ownForm others) rfl, ?_⟩
  refine ⟨3 * (50 * (draft.fresh + draft.root.placesUp.length) + 1) + 1, fun attempts allowed => ?_⟩
  have closed : (Surroundings.forScript symbols { options with maxAttempts := attempts } store id
      script draft).Closed := Surroundings.forScript_closed table ownForm others
  obtain ⟨count, few, unchanged⟩ := ResolutionState.Ready.exists_unchanged
    (formed.start_ready resolving.faithful) formed.surroundings_fit closed
  rw [(resolve_eq symbols _ cache listed read).2.2]
  exact Surroundings.sweeps_converged (Nat.lt_of_lt_of_le few allowed) unchanged

def ScriptStore.alone (module : Module) : ScriptStore :=
  ⟨[{ key := ⟨"Batch", module.name⟩, plugin := .script, text := "",
      reading := .read (.ofModule module) }]⟩

theorem ScriptStore.draft?_alone {module : Module} {draft : Draft}
    (found : (alone module).draft? id = some draft) : draft = .ofModule module := by
  rcases id with ⟨_ | index⟩
  · exact (Option.some.inj found).symm
  · exact nomatch found

theorem exists_module {text name : String} (parses : (parseModule text name).toOption.isSome) :
    ∃ module, parseModule text name = .ok module := by
  cases parsed : parseModule text name with
  | ok module => exact ⟨module, rfl⟩
  | error faults =>
    rw [parsed] at parses
    exact nomatch parses

theorem SymbolTable.empty_undeferred : SymbolTable.empty.Undeferred := by
  constructor <;> intro key entry found <;> simp [SymbolTable.empty] at found

theorem ScriptStore.settles_and_converges_loop : ∃ module script,
    parseModule "For n = 1 To 9\n  total = total + n\nNext" "Sum" = .ok module ∧
    (ScriptStore.alone module).get? ⟨0⟩ = some script ∧
    (Surroundings.forScript .empty {} (.alone module) ⟨0⟩ script (.ofModule module)).Settles
      module.root.roleOf ((Surroundings.forScript .empty {} (.alone module) ⟨0⟩ script
        (.ofModule module)).start (.ofModule module) (.withCapacity 8)) ∧
    ∃ enough, ∀ attempts, enough ≤ attempts → ((ScriptStore.alone module).resolve .empty
      { maxAttempts := attempts } (.withCapacity 8) ⟨0⟩).outcome.converged := by
  obtain ⟨module, parsed⟩ : ∃ module, parseModule "For n = 1 To 9\n  total = total + n\nNext" "Sum" =
      .ok module := exists_module (by decide +kernel)
  have prepared : (Draft.ofModule module).Prepared := .read parsed
  have resolving : (ScriptStore.alone module).Resolving .empty {} (.withCapacity 8) :=
    .begin 8 fun id draft found => ScriptStore.draft?_alone found ▸ prepared
  exact ⟨module, _, parsed, rfl, resolving.settles_and_converges SymbolTable.empty_undeferred rfl rfl
    prepared fun _ absurd => nomatch absurd⟩

/-- A resolved script has nothing open: every expression has a descriptor that needs no looking up,
every name and member a binding, every logical operator a mode that fits its type, and, where there
was a sweep before the last one, every declaration a type. -/
theorem ScriptStore.resolve_decides (symbols : SymbolTable) (options : MigrationOptions)
    (cache : MemberMemo) (listed : store.get? id = some script)
    (read : script.draft? = some draft) (prepared : draft.Prepared) :
    ∃ resolved, (store.resolve symbols options cache id).store.draft? id = some resolved ∧
      (∀ node ∈ resolved.root.descendants, node.shape.isExpression →
        resolved.notes.Decides node ∧ ∀ descriptor,
          resolved.notes.descriptor? node.id = some descriptor → descriptor.isDeferred = false) ∧
      (1 ≤ options.maxAttempts → ∀ node ∈ resolved.root.descendants, node.shape.isDeclaration →
        ∃ descriptor, resolved.notes.descriptor? node.id = some descriptor ∧
          descriptor.isConcrete) := by
  have formed := prepared.formed
  have static : (Surroundings.forScript symbols options store id script draft).Fits _ _ :=
    formed.surroundings_fit
  have knows : (Surroundings.forScript symbols options store id script draft).KnowsOuter :=
    formed.knowsOuter
  obtain ⟨underway, declared⟩ := (formed.start_underway cache).sweeps static options.maxAttempts
  have last := underway.sweep static true
  refine ⟨_, by rw [(resolve_eq symbols options cache listed read).1]; exact draft?_setDraft listed,
    fun node inside expression => ?_, fun some node inside declares => ?_⟩
  · exact last.fits.settle_decides knows
      (fun old lies => underway.fits.sweep_decides static underway.older lies) inside expression
  · exact last.fits.settle_describes knows
      (fun old lies => underway.fits.sweep_describes static underway.older (declared some)
        underway.clear underway.types lies) inside declares

theorem ScriptStore.resolve_decides_logical : ∃ module resolved,
    parseModule "x = Not (a And b)" "Test" = .ok module ∧
    ((ScriptStore.alone module).resolve .empty {} (.withCapacity 8) ⟨0⟩).store.draft? ⟨0⟩ =
      some resolved ∧
    (∀ node ∈ resolved.root.descendants, node.shape.isExpression → resolved.notes.Decides node) ∧
    ∀ node ∈ resolved.root.descendants, node.shape.isDeclaration →
      ∃ descriptor, resolved.notes.descriptor? node.id = some descriptor ∧
        descriptor.isConcrete := by
  obtain ⟨module, parsed⟩ : ∃ module, parseModule "x = Not (a And b)" "Test" =
      .ok module := exists_module (by decide +kernel)
  have prepared : (Draft.ofModule module).Prepared := .read parsed
  obtain ⟨resolved, found, expressions, declarations⟩ :=
    ScriptStore.resolve_decides .empty {} (.withCapacity 8)
      (show (ScriptStore.alone module).get? ⟨0⟩ = some _ from rfl) rfl prepared
  exact ⟨module, resolved, parsed, found, fun node inside expression =>
    (expressions node inside expression).1, declarations (by decide)⟩

def Surroundings.beforeLast (around : Surroundings) (draft : Draft) (cache : MemberMemo) :
    ResolutionState :=
  { (around.sweeps around.options.maxAttempts (around.start draft cache)).2 with changed := false }

/-- When a script is resolved, a declaration without a declared type holds the types of the values
that flow into it, but for values that refer to a declaration which rose in the last sweep after they
had flowed. -/
theorem ScriptStore.resolve_holds (symbols : SymbolTable) (options : MigrationOptions)
    (cache : MemberMemo) (listed : store.get? id = some script)
    (read : script.draft? = some draft) (prepared : draft.Prepared) :
    ∃ resolved, (store.resolve symbols options cache id).store.draft? id = some resolved ∧
      ∀ around, around = Surroundings.forScript symbols options store id script draft →
        ∀ node ∈ resolved.root.descendants, ∀ flow ∈ around.inflows resolved.notes node,
        ∀ value, flow.source = .node value → value.shape.isExpression →
        around.declared[flow.decl]? = none →
        ∃ incoming, resolved.notes.descriptor? value.id = some incoming ∧
          (resolved.notes.Holds flow.decl incoming ∨ ∃ place taken moment,
            place.node.id = node.id ∧ taken.decl = flow.decl ∧
            around.TakenAt (around.beforeLast draft cache) place taken moment ∧
            around.Overtaken moment.notes
              (around.sweep true (around.beforeLast draft cache)).notes value.id) := by
  have formed := prepared.formed
  have static : (Surroundings.forScript symbols options store id script draft).Fits _ _ :=
    formed.surroundings_fit
  have underway := ((formed.start_underway cache).sweeps static options.maxAttempts).1
  refine ⟨_, by rw [(resolve_eq symbols options cache listed read).1]; exact draft?_setDraft listed,
    ?_⟩
  rintro _ rfl node inside flow flows value source expression free
  obtain ⟨place, taken, moment, samePlace, sameDecl, takenAt, holds, incoming, noted, steady⟩ :=
    underway.fits.settle_holds static underway.older formed.knowsOuter inside flows source
      expression free
  refine ⟨incoming, noted, or_iff_not_imp_right.2 fun never => holds incoming (steady ?_)⟩
  exact fun overtaken => never ⟨place, taken, moment, samePlace, sameDecl, takenAt, overtaken⟩

theorem ScriptStore.resolve_holds_assignment : ∃ module resolved script,
    parseModule "x = 1\nx = 2.5" "Test" = .ok module ∧
    (ScriptStore.alone module).get? ⟨0⟩ = some script ∧
    ((ScriptStore.alone module).resolve .empty {} (.withCapacity 8) ⟨0⟩).store.draft? ⟨0⟩ =
      some resolved ∧
    ∀ around, around = Surroundings.forScript .empty {} (.alone module) ⟨0⟩ script
        (.ofModule module) →
      ∀ node ∈ resolved.root.descendants, ∀ flow ∈ around.inflows resolved.notes node,
      ∀ value, flow.source = .node value → value.shape.isExpression →
      around.declared[flow.decl]? = none →
      ∃ incoming, resolved.notes.descriptor? value.id = some incoming ∧
        (resolved.notes.Holds flow.decl incoming ∨ ∃ place taken moment,
          place.node.id = node.id ∧ taken.decl = flow.decl ∧
          around.TakenAt (around.beforeLast (.ofModule module) (.withCapacity 8)) place taken
            moment ∧
          around.Overtaken moment.notes (around.sweep true
            (around.beforeLast (.ofModule module) (.withCapacity 8))).notes value.id) := by
  obtain ⟨module, parsed⟩ : ∃ module, parseModule "x = 1\nx = 2.5" "Test" =
      .ok module := exists_module (by decide +kernel)
  have prepared : (Draft.ofModule module).Prepared := .read parsed
  obtain ⟨resolved, found, flows⟩ := ScriptStore.resolve_holds .empty {} (.withCapacity 8)
    (show (ScriptStore.alone module).get? ⟨0⟩ = some _ from rfl) rfl prepared
  exact ⟨module, resolved, _, parsed, rfl, found, flows⟩

end Resolve

end ScriptMigration
