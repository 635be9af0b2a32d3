import ScriptMigration.Proofs.Resolution.Noted

/-! Sweeps that find out nothing. A place is settled when a visit there finds out nothing new, which is
a matter of the notes alone; so after a sweep that finds out nothing no later one finds anything. -/
namespace ScriptMigration

namespace Surroundings

variable {around : Surroundings} {state : ResolutionState}

def Idle (around : Surroundings) (notes : Notes) (flow : Inflow) : Prop :=
  ∀ descriptor, around.inflow? notes flow = some descriptor →
    notes.descriptor? flow.decl == some descriptor

theorem pour_cases (state : ResolutionState) (flow : Inflow) :
    (around.Idle state.notes flow ∧ around.pour state flow = state) ∨
      ∃ descriptor, around.inflow? state.notes flow = some descriptor ∧
        (state.notes.descriptor? flow.decl == some descriptor) = false ∧
        around.pour state flow =
          { state with notes := state.notes.describe flow.decl descriptor, changed := true } := by
  unfold pour Idle
  cases found : around.inflow? state.notes flow with
  | none => exact .inl ⟨fun _ absurd => (nomatch absurd), rfl⟩
  | some descriptor =>
    rcases state.describe_cases flow.decl descriptor with ⟨same, kept⟩ | ⟨differs, new⟩
    · refine .inl ⟨fun other isOther => ?_, kept⟩
      obtain rfl := Option.some.inj isOther
      exact same
    · exact .inr ⟨descriptor, rfl, differs, new⟩

theorem foldl_pour_of_idle {flows : List Inflow}
    (idle : ∀ flow ∈ flows, around.Idle state.notes flow) :
    flows.foldl around.pour state = state := by
  induction flows with
  | nil => rfl
  | cons flow rest ih =>
    rcases around.pour_cases state flow with ⟨_, kept⟩ | ⟨descriptor, found, differs, _⟩
    · rw [List.foldl_cons, kept]
      exact ih fun other later => idle other (List.mem_cons_of_mem _ later)
    · rw [idle flow List.mem_cons_self descriptor found] at differs
      exact nomatch differs

theorem changed_foldl_pour (flows : List Inflow) (changed : state.changed) :
    (flows.foldl around.pour state).changed := by
  induction flows generalizing state with
  | nil => exact changed
  | cons flow rest ih =>
    refine ih ?_
    rcases around.pour_cases state flow with ⟨_, kept⟩ | ⟨_, _, _, new⟩
    · rw [kept]
      exact changed
    · rw [new]

theorem idle_of_foldl_pour {flows : List Inflow}
    (unchanged : (flows.foldl around.pour state).changed = false) :
    ∀ flow ∈ flows, around.Idle state.notes flow := by
  induction flows with
  | nil => exact fun _ listed => nomatch listed
  | cons flow rest ih =>
    rw [List.foldl_cons] at unchanged
    rcases around.pour_cases state flow with ⟨idle, kept⟩ | ⟨_, _, _, new⟩
    · rw [kept] at unchanged
      intro other listed
      rcases List.mem_cons.1 listed with rfl | later
      · exact idle
      · exact ih unchanged other later
    · rw [changed_foldl_pour rest (by rw [new])] at unchanged
      exact nomatch unchanged

theorem fill_false (node : Node) : fill false node state = state := by
  unfold fill
  split <;> rfl

structure SettledAt (around : Surroundings) (notes : Notes)
    (bodies : Std.HashMap NodeId LocalScope) (place : Place) : Prop where
  undeclared : around.declaresAt bodies place = false
  judged : around.JudgedAt notes bodies place
  idle : ∀ flow ∈ around.inflows notes place.node, around.Idle notes flow

end Surroundings

structure ResolutionState.Ready (state : ResolutionState) (around : Surroundings)
    (roles : NodeId → Role) (bound : Nat) : Prop where
  fits : state.Fits around roles
  grounded : state.Grounded around roles
  older : bound ≤ state.fresh

section Stillness

variable {around : Surroundings} {roles : NodeId → Role} {state : ResolutionState} {bound : Nat}
  {place : Place}

namespace ResolutionState.Ready

theorem visit (ready : state.Ready around roles bound) (static : around.Fits roles bound)
    (closed : around.Closed) (inside : place ∈ state.root.placesUp) (final : Bool) :
    (around.sweepNode final state place).Ready around roles bound := by
  obtain ⟨fits, evolves⟩ := ready.fits.visit final static ready.older inside
  exact ⟨fits, ready.grounded.visit ready.fits static closed ready.older inside final,
    Nat.le_trans ready.older evolves.fresh⟩

theorem visit_of_settled (ready : state.Ready around roles bound) (static : around.Fits roles bound)
    (inside : place ∈ state.root.placesUp) (unchanged : state.changed = false)
    (settled : around.SettledAt state.notes state.bodies place) :
    (around.sweepNode false state place).changed = false := by
  have judged := ready.fits.judge_still inside settled.undeclared ready.grounded.faithful
    settled.judged
  rw [unchanged] at judged
  obtain ⟨notes, _⟩ := (ready.fits.judge static inside false).2.still judged
  rw [Surroundings.sweepNode_eq, Surroundings.fill_false, notes,
    Surroundings.foldl_pour_of_idle (by rw [notes]; exact settled.idle)]
  exact judged

theorem settled_of_visit (ready : state.Ready around roles bound) (static : around.Fits roles bound)
    (closed : around.Closed) (inside : place ∈ state.root.placesUp)
    (unchanged : (around.sweepNode false state place).changed = false) :
    around.SettledAt state.notes state.bodies place := by
  have evolves := (ready.fits.visit false static ready.older inside).2
  obtain ⟨notes, bodies, _⟩ := evolves.still unchanged
  have undeclared := ready.fits.visit_settles false static ready.older inside
  rw [bodies] at undeclared
  have later := ready.fits.judge_evolves static ready.older inside false
  have judgedUnchanged : (around.judge false place state).changed = false := by
    cases known : (around.judge false place state).changed with
    | false => rfl
    | true =>
      rw [later.changed known] at unchanged
      exact nomatch unchanged
  obtain ⟨judgedNotes, _⟩ := (ready.fits.judge static inside false).2.still judgedUnchanged
  refine ⟨undeclared, ⟨fun expression cache faithful => ?_, fun shape isSource noted => ?_⟩, ?_⟩
  · have noted := ready.fits.visit_noted static ready.older inside false expression undeclared
    rw [notes] at noted
    have agree : state.notes.AgreeAt place roles state.notes :=
      ⟨fun _ _ => rfl, fun _ _ => rfl, fun _ _ => rfl⟩
    rw [closed.typed_congr (ready.grounded.direct ready.fits) agree false state.bodies
      ready.grounded.faithful faithful]
    exact noted
  · have noted' := ready.fits.visit_property static ready.older inside false shape isSource noted
    rw [notes] at noted'
    exact noted'
  · rw [Surroundings.sweepNode_eq, Surroundings.fill_false] at unchanged
    have idle := Surroundings.idle_of_foldl_pour unchanged
    rw [judgedNotes] at idle
    exact idle

theorem walk (ready : state.Ready around roles bound) (static : around.Fits roles bound)
    (closed : around.Closed) {places : List Place}
    (inside : ∀ place ∈ places, place ∈ state.root.placesUp) (final : Bool) :
    (around.walk final places state).Ready around roles bound := by
  induction places generalizing state with
  | nil => exact ready
  | cons place rest ih =>
    have here := inside place List.mem_cons_self
    exact ih (ready.visit static closed here final)
      ((ready.fits.visit final static ready.older here).2.inside_rest inside)

theorem walk_of_settled (ready : state.Ready around roles bound) (static : around.Fits roles bound)
    (closed : around.Closed) {places : List Place}
    (inside : ∀ place ∈ places, place ∈ state.root.placesUp) (unchanged : state.changed = false)
    (settled : ∀ place ∈ places, around.SettledAt state.notes state.bodies place) :
    (around.walk false places state).changed = false := by
  induction places generalizing state with
  | nil => exact unchanged
  | cons place rest ih =>
    have here := inside place List.mem_cons_self
    have next := ready.visit_of_settled static here unchanged (settled place List.mem_cons_self)
    have evolves := (ready.fits.visit false static ready.older here).2
    obtain ⟨notes, bodies, _⟩ := evolves.still next
    refine ih (ready.visit static closed here false) (evolves.inside_rest inside) next
      fun other later => ?_
    rw [notes, bodies]
    exact settled other (List.mem_cons_of_mem _ later)

theorem settled_of_walk (ready : state.Ready around roles bound) (static : around.Fits roles bound)
    (closed : around.Closed) {places : List Place}
    (inside : ∀ place ∈ places, place ∈ state.root.placesUp)
    (unchanged : (around.walk false places state).changed = false) :
    ∀ place ∈ places, around.SettledAt state.notes state.bodies place := by
  induction places generalizing state with
  | nil => exact fun _ listed => nomatch listed
  | cons place rest ih =>
    have here := inside place List.mem_cons_self
    have evolves := (ready.fits.visit false static ready.older here).2
    have nextReady := ready.visit static closed here false
    have nextInside := evolves.inside_rest inside
    have further := (nextReady.fits.walk false static nextReady.older nextInside).2
    have next : (around.sweepNode false state place).changed = false := by
      cases known : (around.sweepNode false state place).changed with
      | false => rfl
      | true =>
        have changed : (around.walk false (place :: rest) state).changed := further.changed known
        rw [unchanged] at changed
        exact nomatch changed
    obtain ⟨notes, bodies, _⟩ := evolves.still next
    intro other listed
    rcases List.mem_cons.1 listed with rfl | later
    · exact ready.settled_of_visit static closed here next
    · have settled := ih nextReady nextInside unchanged other later
      rw [notes, bodies] at settled
      exact settled

theorem begin (ready : state.Ready around roles bound) (changed : Bool) :
    Ready { state with changed } around roles bound :=
  ⟨ready.fits.record state.cache state.warnings state.obligations changed,
    ⟨ready.grounded.refers, ready.grounded.faithful⟩, ready.older⟩

theorem settleImplicit (ready : state.Ready around roles bound) :
    state.settleImplicit.Ready around roles bound := by
  refine ⟨ready.fits.settleImplicit, ?_, ?_⟩
  · rw [settleImplicit_eq]
    exact ⟨ready.grounded.refers, ready.grounded.faithful⟩
  · rw [fresh_settleImplicit]
    exact ready.older

theorem sweep (ready : state.Ready around roles bound) (static : around.Fits roles bound)
    (closed : around.Closed) (final : Bool) :
    (around.sweep final state).Ready around roles bound :=
  ((ready.begin false).walk static closed (fun _ listed => listed) final).settleImplicit

end ResolutionState.Ready

namespace ResolutionState

/-- A sweep finds out nothing new. -/
structure Settled (state : ResolutionState) (around : Surroundings) : Prop where
  clear : state.implicit = []
  places : ∀ place ∈ state.root.placesUp, around.SettledAt state.notes state.bodies place

/-- Two states with the same tree and the same notes on it. -/
structure Same (state after : ResolutionState) : Prop where
  root : after.root = state.root
  notes : after.notes = state.notes
  bodies : after.bodies = state.bodies
  fresh : after.fresh = state.fresh
  implicit : after.implicit = state.implicit

namespace Ready

theorem sweep_unchanged (ready : state.Ready around roles bound) (static : around.Fits roles bound)
    (closed : around.Closed) (clear : state.implicit = [])
    (unchanged : (around.sweep false state).changed = false) :
    state.Same (around.sweep false state) ∧ state.Settled around := by
  have started := ready.begin false
  have inside : ∀ place ∈ state.root.placesUp,
      place ∈ ({ state with changed := false } : ResolutionState).root.placesUp :=
    fun _ listed => listed
  have evolves := (started.fits.walk false static started.older inside).2
  have walked : (around.walk false state.root.placesUp { state with changed := false }).changed =
      false := (changed_settleImplicit _).symm.trans unchanged
  have settled := started.settled_of_walk static closed inside walked
  obtain ⟨notes, bodies, fresh, implicit⟩ := evolves.still walked
  have same : around.sweep false state =
      around.walk false state.root.placesUp { state with changed := false } :=
    settleImplicit_of_nil (implicit.trans clear)
  rw [same]
  exact ⟨⟨evolves.root, notes, bodies, fresh, implicit⟩, ⟨clear, settled⟩⟩

theorem sweep_of_settled (ready : state.Ready around roles bound) (static : around.Fits roles bound)
    (closed : around.Closed) (settled : state.Settled around) :
    (around.sweep false state).changed = false := by
  refine (changed_settleImplicit _).trans ?_
  exact (ready.begin false).walk_of_settled static closed (fun _ listed => listed) rfl
    settled.places

end Ready

theorem Same.settled {after : ResolutionState} (same : state.Same after)
    (settled : state.Settled around) : after.Settled around := by
  refine ⟨same.implicit.trans settled.clear, fun place listed => ?_⟩
  rw [same.notes, same.bodies]
  rw [same.root] at listed
  exact settled.places place listed

end ResolutionState

end Stillness

end ScriptMigration
