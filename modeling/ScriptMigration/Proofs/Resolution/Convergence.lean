import ScriptMigration.Proofs.Resolution.Start
import ScriptMigration.Proofs.Resolution.Stillness

/-! Sweeps come to an end. Declarations have only so much room to rise. While none of them rises the
properties stay from the first sweep on, the expressions from the second on, and the third finds out
nothing. -/
namespace ScriptMigration

structure ResolutionState.Level (roles : NodeId → Role) (state after : ResolutionState) : Prop where
  fresh : after.fresh = state.fresh
  room : after.notes.room roles state.fresh = state.notes.room roles state.fresh

section Convergence

variable {around : Surroundings} {roles : NodeId → Role} {state middle after : ResolutionState}
  {bound : Nat} {place : Place}

namespace ResolutionState

namespace Level

variable {visited visited' : NodeId → Prop}

theorem split (level : state.Level roles after) (first : state.Evolves roles visited middle)
    (second : middle.Evolves roles visited' after) :
    state.Level roles middle ∧ middle.Level roles after := by
  have same : middle.fresh = state.fresh :=
    Nat.le_antisymm (level.fresh ▸ second.fresh) first.fresh
  have upper := first.room state.fresh
  have lower := second.room state.fresh
  have total := level.room
  refine ⟨⟨same, by omega⟩, ⟨level.fresh.trans same.symm, ?_⟩⟩
  rw [same]
  omega

theorem descriptor?_eq (level : state.Level roles after) (evolves : state.Evolves roles visited after)
    {id : NodeId} (role : roles id = .other) :
    after.notes.descriptor? id = state.notes.descriptor? id :=
  evolves.quiet level.fresh level.room id role

end Level

namespace Fits

theorem pour_evolves (fits : state.Fits around roles) (flow : Inflow)
    (plain : Role.Plain roles state.fresh flow.decl) :
    state.Evolves roles (fun _ => False) (around.pour state flow) := by
  have touches (place : Place) : Touches around roles (fun _ => True) place state
      (around.pour state flow) := Touches.pour fits flow plain
  exact Touches.elsewhere touches

theorem pour_level (fits : state.Fits around roles) {flow : Inflow}
    (plain : Role.Plain roles state.fresh flow.decl)
    (level : state.Level roles (around.pour state flow)) : around.pour state flow = state := by
  rcases around.pour_cases state flow with ⟨_, kept⟩ | ⟨descriptor, _, differs, new⟩
  · exact kept
  · have same := level.descriptor?_eq (fits.pour_evolves flow plain) plain.role
    rw [new] at same
    simp only [Notes.descriptor?_describe, if_true] at same
    rw [← same] at differs
    have equal : (some descriptor == some descriptor) := Descriptor.beq_refl descriptor
    rw [equal] at differs
    exact nomatch differs

theorem pourAll_level (fits : state.Fits around roles) (static : around.Fits roles bound)
    {flows : List Inflow} (plain : ∀ flow ∈ flows, Role.Plain roles state.fresh flow.decl)
    (level : state.Level roles (flows.foldl around.pour state)) :
    flows.foldl around.pour state = state := by
  induction flows with
  | nil => rfl
  | cons flow rest ih =>
    have first := plain flow List.mem_cons_self
    have evolves := fits.pour_evolves flow first
    have touches (place : Place) : Touches around roles (fun _ => True) place state
        (around.pour state flow) := Touches.pour fits flow first
    have nextFits := (touches ⟨.made ⟨0⟩ 0 .missing, []⟩).fits static fits
    have later (place : Place) : Touches around roles (fun _ => True) place
        (around.pour state flow) (rest.foldl around.pour (around.pour state flow)) :=
      Touches.pourAll static nextFits rest fun other listed =>
        (plain other (List.mem_cons_of_mem _ listed)).mono evolves.fresh
    have kept := fits.pour_level first (level.split evolves (Touches.elsewhere later)).1
    rw [List.foldl_cons, kept] at level ⊢
    exact ih (fun other listed => plain other (List.mem_cons_of_mem _ listed)) level

end Fits

namespace Ready

theorem visit_level (ready : state.Ready around roles bound) (static : around.Fits roles bound)
    (inside : place ∈ state.root.placesUp) (unchanged : state.changed = false)
    (undeclared : around.declaresAt state.bodies place = false)
    (judged : around.JudgedAt state.notes state.bodies place)
    (level : state.Level roles (around.sweepNode false state place)) :
    (around.sweepNode false state place).changed = false := by
  have still := ready.fits.judge_still inside undeclared ready.grounded.faithful judged
  rw [unchanged] at still
  obtain ⟨judgedFits, evolves⟩ := ready.fits.judge static inside false
  have older := Nat.le_trans ready.older evolves.fresh
  have lies : place.node ∈ (around.judge false place state).root.descendants := by
    rw [evolves.root]
    exact Node.node_mem_of_mem_placesUp inside
  have flows := (level.split evolves (ready.fits.judge_evolves static ready.older inside false)).2
  rw [Surroundings.sweepNode_eq, Surroundings.fill_false] at flows ⊢
  rw [judgedFits.pourAll_level static
    (fun _ listed => judgedFits.inflows_plain static older lies listed) flows]
  exact still

theorem level_cons (ready : state.Ready around roles bound) (static : around.Fits roles bound)
    (closed : around.Closed) {place : Place} {rest : List Place}
    (inside : ∀ other ∈ place :: rest, other ∈ state.root.placesUp)
    (level : state.Level roles (around.walk false (place :: rest) state)) :
    state.Level roles (around.sweepNode false state place) ∧
      (around.sweepNode false state place).Level roles
        (around.walk false rest (around.sweepNode false state place)) := by
  have here := inside place List.mem_cons_self
  have evolves := (ready.fits.visit false static ready.older here).2
  have next := ready.visit static closed here false
  exact level.split evolves
    (next.fits.walk false static next.older (evolves.inside_rest inside)).2

theorem walk_level (ready : state.Ready around roles bound) (static : around.Fits roles bound)
    (closed : around.Closed) {places : List Place}
    (inside : ∀ place ∈ places, place ∈ state.root.placesUp) (unchanged : state.changed = false)
    (declared : state.Declared around)
    (judged : ∀ place ∈ places, around.JudgedAt state.notes state.bodies place)
    (level : state.Level roles (around.walk false places state)) :
    (around.walk false places state).changed = false := by
  induction places generalizing state with
  | nil => exact unchanged
  | cons place rest ih =>
    have here := inside place List.mem_cons_self
    have evolves := (ready.fits.visit false static ready.older here).2
    obtain ⟨first, later⟩ := ready.level_cons static closed inside level
    have next := ready.visit_level static here unchanged (declared place here)
      (judged place List.mem_cons_self) first
    obtain ⟨notes, bodies, _⟩ := evolves.still next
    refine ih (ready.visit static closed here false) (evolves.inside_rest inside) next ?_ ?_ later
    · intro other listed
      rw [evolves.root] at listed
      rw [bodies]
      exact declared other listed
    · intro other later
      rw [notes, bodies]
      exact judged other (List.mem_cons_of_mem _ later)

theorem walk_copies (ready : state.Ready around roles bound) (static : around.Fits roles bound)
    (closed : around.Closed)
    (level : state.Level roles (around.walk false state.root.placesUp state)) :
    ∀ place ∈ state.root.placesUp,
      (around.walk false state.root.placesUp state).notes.CopiedAt place := by
  intro place listed decl source type shape isSource noted
  obtain ⟨before, inside, visited, apart, _, further⟩ :=
    ready.fits.exists_visit false static ready.older listed
  have evolves := (ready.fits.walk false static ready.older inside).2
  have middleReady := ready.walk static closed inside false
  generalize around.walk false before state = middle at evolves middleReady further
  have here : place ∈ middle.root.placesUp := evolves.root ▸ listed
  have visit := (middleReady.fits.visit false static middleReady.older here).2
  have lies := Node.node_mem_of_mem_placesUp here
  have role : roles source.id = .other :=
    middleReady.fits.tree.source _ lies decl source shape isSource
  have ownRole : roles place.node.id ≠ .other := by
    rw [middleReady.fits.tree.role _ lies, shape]
    simp [Shape.family, Shape.Family.role]
  have whole := (visit.mono fun _ _ => trivial).trans (further.mono fun _ _ => trivial)
  rw [(level.split evolves whole).2.descriptor?_eq whole role] at noted
  rw [further.descriptor _ apart ownRole]
  exact middleReady.fits.visit_property static middleReady.older here false shape isSource noted

theorem visit_keeps (ready : state.Ready around roles bound) (static : around.Fits roles bound)
    (inside : place ∈ state.root.placesUp) (copied : state.notes.CopiedAt place)
    (level : state.Level roles (around.sweepNode false state place)) {id : NodeId}
    (role : roles id ≠ .expression) :
    (around.sweepNode false state place).notes.descriptor? id = state.notes.descriptor? id := by
  have visit := (ready.fits.visit false static ready.older inside).2
  by_cases other : roles id = .other
  · exact level.descriptor?_eq visit other
  by_cases own : id = place.node.id
  · subst own
    have family := ready.fits.tree.role _ (Node.node_mem_of_mem_placesUp inside)
    have isProperty : ∃ decl, place.node.shape = .property decl := by
      refine (Shape.family_eq_property_iff _).1 ?_
      cases kind : place.node.shape.family with
      | property => rfl
      | expression => exact absurd (by rw [family, kind]; rfl) role
      | _ => exact absurd (by rw [family, kind]; rfl) other
    obtain ⟨decl, shape⟩ := isProperty
    have later := ready.fits.judge_evolves static ready.older inside false
    rw [later.descriptor _ (fun absurd => absurd) other, Surroundings.judge_of_property shape,
      ready.fits.sweepProperty_of_copied inside shape copied]
  · exact visit.descriptor id own other

theorem walk_keeps (ready : state.Ready around roles bound) (static : around.Fits roles bound)
    (closed : around.Closed) {places : List Place}
    (inside : ∀ place ∈ places, place ∈ state.root.placesUp)
    (copied : ∀ place ∈ state.root.placesUp, state.notes.CopiedAt place)
    (level : state.Level roles (around.walk false places state)) {id : NodeId}
    (role : roles id ≠ .expression) :
    (around.walk false places state).notes.descriptor? id = state.notes.descriptor? id := by
  induction places generalizing state with
  | nil => rfl
  | cons place rest ih =>
    have here := inside place List.mem_cons_self
    have evolves := (ready.fits.visit false static ready.older here).2
    obtain ⟨first, second⟩ := ready.level_cons static closed inside level
    have keeps {id : NodeId} (role : roles id ≠ .expression) :=
      ready.visit_keeps static here (copied place here) first role
    refine (ih (ready.visit static closed here false) (evolves.inside_rest inside) ?_ second).trans
      (keeps role)
    intro other listed decl source type shape isSource noted
    rw [evolves.root] at listed
    have lies := Node.node_mem_of_mem_placesUp listed
    have sourceRole := ready.fits.tree.source _ lies decl source shape isSource
    have ownRole := ready.fits.tree.role _ lies
    rw [keeps (by rw [sourceRole]; decide)] at noted
    rw [keeps (by rw [ownRole, shape]; simp [Shape.family, Shape.Family.role])]
    exact copied other listed shape isSource noted

theorem walk_judges (ready : state.Ready around roles bound) (static : around.Fits roles bound)
    (closed : around.Closed) (declared : state.Declared around)
    (copied : ∀ place ∈ state.root.placesUp, state.notes.CopiedAt place)
    (level : state.Level roles (around.walk false state.root.placesUp state)) :
    ∀ place ∈ state.root.placesUp, around.JudgedAt
      (around.walk false state.root.placesUp state).notes state.bodies place := by
  intro place listed
  refine ⟨fun expression cache faithful => ?_, ready.walk_copies static closed level place listed⟩
  obtain ⟨before, inside, visited, apart, unread, further⟩ :=
    ready.fits.exists_visit false static ready.older listed
  have evolves := (ready.fits.walk false static ready.older inside).2
  have middleReady := ready.walk static closed inside false
  have sameBodies := (declared.walk ready.fits false static ready.older inside).1
  have here : place ∈ (around.walk false before state).root.placesUp := by
    rw [evolves.root]
    exact listed
  have visit := (middleReady.fits.visit false static middleReady.older here).2
  have whole := (visit.mono fun _ _ => trivial).trans (further.mono fun _ _ => trivial)
  have keepsBefore {id : NodeId} (role : roles id ≠ .expression) :=
    ready.walk_keeps static closed inside copied (level.split evolves whole).1 role
  have keeps {id : NodeId} (role : roles id ≠ .expression) :=
    ready.walk_keeps static closed (fun _ among => among) copied level role
  generalize around.walk false before state = middle at *
  have own := Node.id_not_mem_reads ready.fits.tree.distinct listed
  have agree : middle.notes.AgreeAt place roles
      (around.walk false state.root.placesUp state).notes := by
    refine ⟨fun id role => (keeps role).trans (keepsBefore role).symm, fun id read => ?_,
      fun id read => ?_⟩
    · have differs : ¬ id = place.node.id := fun same => own (same ▸ read)
      by_cases role : roles id = .other
      · have plain : roles id ≠ .expression := by
          rw [role]
          decide
        exact (keeps plain).trans (keepsBefore plain).symm
      · exact (further.descriptor id (unread id read) role).trans (visit.descriptor id differs role)
    · have differs : ¬ id = place.node.id := fun same => own (same ▸ read)
      exact (further.binding id (unread id read)).trans (visit.binding id differs)
  have undeclared : around.declaresAt middle.bodies place = false := by
    rw [sameBodies]
    exact declared place listed
  have noted := middleReady.fits.visit_noted static middleReady.older here false expression
    undeclared
  have role := middleReady.fits.role_expression here expression
  rw [closed.typed_congr (middleReady.grounded.direct middleReady.fits) agree false state.bodies
    middleReady.grounded.faithful faithful, ← sameBodies]
  refine noted.congr (further.mode _ apart) (further.binding _ apart)
    (further.descriptor _ apart ?_)
  rw [role]
  decide

end Ready

structure Swept (state : ResolutionState) (around : Surroundings) (roles : NodeId → Role)
    (bound : Nat) : Prop where
  ready : state.Ready around roles bound
  declared : state.Declared around
  clear : state.implicit = []

theorem Ready.swept (ready : state.Ready around roles bound) (static : around.Fits roles bound)
    (closed : around.Closed) (final : Bool) :
    (around.sweep final state).Swept around roles bound :=
  ⟨ready.sweep static closed final, ready.fits.sweep_declared final static ready.older,
    implicit_settleImplicit _⟩

namespace Swept

theorem begin (swept : state.Swept around roles bound) :
    ({ state with changed := false } : ResolutionState).Swept around roles bound :=
  ⟨swept.ready.begin false, swept.declared, swept.clear⟩

theorem sweep_eq (swept : state.Swept around roles bound) (static : around.Fits roles bound) :
    around.sweep false state =
      around.walk false state.root.placesUp { state with changed := false } :=
  (swept.declared.sweep swept.ready.fits false static swept.ready.older swept.clear).1

theorem sweep_root (swept : state.Swept around roles bound) (static : around.Fits roles bound) :
    (around.sweep false state).root = state.root :=
  (swept.declared.sweep swept.ready.fits false static swept.ready.older swept.clear).2.1

theorem sweep_bodies (swept : state.Swept around roles bound) (static : around.Fits roles bound) :
    (around.sweep false state).bodies = state.bodies :=
  (swept.declared.sweep swept.ready.fits false static swept.ready.older swept.clear).2.2.1

theorem sweep_fresh (swept : state.Swept around roles bound) (static : around.Fits roles bound) :
    (around.sweep false state).fresh = state.fresh :=
  (swept.declared.sweep swept.ready.fits false static swept.ready.older swept.clear).2.2.2

theorem sweep_room (swept : state.Swept around roles bound) (static : around.Fits roles bound) :
    (around.sweep false state).notes.room roles state.fresh ≤
      state.notes.room roles state.fresh := by
  have started := swept.ready.begin false
  have evolves := (started.fits.walk false static started.older fun _ listed => listed).2
  rw [swept.sweep_eq static]
  exact evolves.room state.fresh

theorem third_sweep (swept : state.Swept around roles bound) (static : around.Fits roles bound)
    (closed : around.Closed) :
    (around.sweep false (around.sweep false (around.sweep false state))).notes.room roles
        state.fresh < state.notes.room roles state.fresh ∨
      (around.sweep false (around.sweep false (around.sweep false state))).changed = false := by
  have first : (around.sweep false state).Swept around roles bound :=
    swept.ready.swept static closed false
  have second : (around.sweep false (around.sweep false state)).Swept around roles bound :=
    first.ready.swept static closed false
  have firstFresh := swept.sweep_fresh static
  have secondFresh := (first.sweep_fresh static).trans firstFresh
  have thirdFresh := (second.sweep_fresh static).trans secondFresh
  have firstRoom := swept.sweep_room static
  have secondRoom := first.sweep_room static
  have thirdRoom := second.sweep_room static
  rw [firstFresh] at secondRoom
  rw [secondFresh] at thirdRoom
  rcases Nat.lt_or_ge ((around.sweep false (around.sweep false
    (around.sweep false state))).notes.room roles state.fresh)
    (state.notes.room roles state.fresh) with falls | stays
  · exact .inl falls
  · refine .inr ?_
    have firstLevel : ResolutionState.Level roles { state with changed := false }
        (around.sweep false state) := ⟨firstFresh, by dsimp only; omega⟩
    have secondLevel : ResolutionState.Level roles
        { around.sweep false state with changed := false }
        (around.sweep false (around.sweep false state)) :=
      ⟨secondFresh.trans firstFresh.symm, by dsimp only; rw [firstFresh]; omega⟩
    have thirdLevel : ResolutionState.Level roles
        { around.sweep false (around.sweep false state) with changed := false }
        (around.sweep false (around.sweep false (around.sweep false state))) :=
      ⟨thirdFresh.trans secondFresh.symm, by dsimp only; rw [secondFresh]; omega⟩
    rw [swept.sweep_eq static] at firstLevel
    have copied := swept.begin.ready.walk_copies static closed firstLevel
    rw [← swept.sweep_eq static] at copied
    have copiedAgain : ∀ place ∈ (around.sweep false state).root.placesUp,
        (around.sweep false state).notes.CopiedAt place := by
      rw [swept.sweep_root static]
      exact copied
    rw [first.sweep_eq static] at secondLevel
    have judged := first.begin.ready.walk_judges static closed first.begin.declared copiedAgain
      secondLevel
    rw [← first.sweep_eq static] at judged
    rw [second.sweep_eq static] at thirdLevel ⊢
    refine second.begin.ready.walk_level static closed (fun _ listed => listed) rfl
      second.begin.declared ?_ thirdLevel
    intro place listed
    rw [first.sweep_root static] at listed
    have settled := judged place listed
    dsimp only at settled ⊢
    rwa [first.sweep_bodies static]

theorem exists_unchanged (swept : state.Swept around roles bound)
    (static : around.Fits roles bound) (closed : around.Closed) :
    ∃ count < 3 * (state.notes.room roles state.fresh + 1),
      ((around.sweep false)^[count + 1] state).changed = false := by
  generalize size : state.notes.room roles state.fresh = room
  induction room using Nat.strongRecOn generalizing state with
  | ind room ih =>
    rcases swept.third_sweep static closed with falls | still
    · have first : (around.sweep false state).Swept around roles bound :=
        swept.ready.swept static closed false
      have second : (around.sweep false (around.sweep false state)).Swept around roles bound :=
        first.ready.swept static closed false
      have third : (around.sweep false (around.sweep false (around.sweep false state))).Swept
          around roles bound := second.ready.swept static closed false
      have fresh := (second.sweep_fresh static).trans
        ((first.sweep_fresh static).trans (swept.sweep_fresh static))
      obtain ⟨count, small, unchanged⟩ := ih _ (size ▸ falls) third (by rw [fresh])
      exact ⟨count + 3, by omega, unchanged⟩
    · exact ⟨2, by omega, still⟩

end Swept

namespace Ready

theorem iterate (ready : state.Ready around roles bound) (static : around.Fits roles bound)
    (closed : around.Closed) (clear : state.implicit = []) (count : Nat) :
    ((around.sweep false)^[count] state).Ready around roles bound ∧
      ((around.sweep false)^[count] state).implicit = [] := by
  induction count with
  | zero => exact ⟨ready, clear⟩
  | succ count ih =>
    rw [Function.iterate_succ_apply']
    exact ⟨ih.1.sweep static closed false, implicit_settleImplicit _⟩

theorem unchanged_onwards (ready : state.Ready around roles bound)
    (static : around.Fits roles bound) (closed : around.Closed) (clear : state.implicit = [])
    (unchanged : (around.sweep false state).changed = false) (count : Nat) :
    ((around.sweep false)^[count + 1] state).changed = false := by
  obtain ⟨_, settled⟩ := ready.sweep_unchanged static closed clear unchanged
  have holds : ((around.sweep false)^[count] state).Settled around := by
    induction count with
    | zero => exact settled
    | succ count ih =>
      obtain ⟨readyHere, clearHere⟩ := ready.iterate static closed clear count
      have still := readyHere.sweep_of_settled static closed ih
      rw [Function.iterate_succ_apply']
      exact (readyHere.sweep_unchanged static closed clearHere still).1.settled ih
  rw [Function.iterate_succ_apply']
  exact (ready.iterate static closed clear count).1.sweep_of_settled static closed holds

theorem exists_unchanged (ready : state.Ready around roles bound)
    (static : around.Fits roles bound) (closed : around.Closed) :
    ∃ count < 3 * (50 * (state.fresh + state.root.placesUp.length) + 1) + 1,
      ((around.sweep false)^[count + 1] state).changed = false := by
  have swept : (around.sweep false state).Swept around roles bound :=
    ready.swept static closed false
  have started := ready.begin false
  have walked := started.fits.walk_fresh_le false static started.older fun _ listed => listed
  have fresh : (around.sweep false state).fresh ≤ state.fresh + state.root.placesUp.length := by
    rw [Surroundings.sweep, ResolutionState.fresh_settleImplicit]
    exact walked
  obtain ⟨count, small, unchanged⟩ := swept.exists_unchanged static closed
  have room := Notes.room_le roles (around.sweep false state).fresh (around.sweep false state).notes
  refine ⟨count + 1, ?_, unchanged⟩
  have scaled := Nat.mul_le_mul_left 50 fresh
  omega

end Ready

/-- Declared types are kept, and all else that is known of declarations rises: what was known, merged
with what is known now, is what is known now. -/
structure Ascends (around : Surroundings) (roles : NodeId → Role)
    (before after : ResolutionState) : Prop where
  declared : ∀ decl type, around.declared[decl]? = some type →
    before.notes.descriptor? decl = some type ∧ after.notes.descriptor? decl = some type
  rises : ∀ decl old, roles decl = .other → before.notes.descriptor? decl = some old →
    ∃ new, after.notes.descriptor? decl = some new ∧ ∀ lookup, old.merge lookup new = new

namespace Ascends

theorem ofEvolves {visited : NodeId → Prop} (fits : state.Fits around roles)
    (afterFits : after.Fits around roles) (evolves : state.Evolves roles visited after) :
    Ascends around roles state after := by
  refine ⟨fun _ _ written => ⟨fits.declared written, afterFits.declared written⟩, ?_⟩
  intro decl old role noted
  obtain ⟨new, found, precedes⟩ := evolves.rises decl old role noted
  have plain : roles decl ≠ .expression := by
    rw [role]
    decide
  refine ⟨new, found, fun lookup => ?_⟩
  rw [Descriptor.merge_eq_join lookup (fits.known noted plain) (afterFits.known found plain)]
  exact precedes

end Ascends

theorem Ready.visit_ascends (ready : state.Ready around roles bound)
    (static : around.Fits roles bound) {before later : List Place}
    (split : state.root.placesUp = before ++ place :: later) :
    Ascends around roles (around.walk false before state)
      (around.sweepNode false (around.walk false before state) place) := by
  have inside : ∀ other ∈ before, other ∈ state.root.placesUp := by
    intro other among
    rw [split]
    exact List.mem_append_left _ among
  obtain ⟨fits, evolves⟩ := ready.fits.walk false static ready.older inside
  have here : place ∈ (around.walk false before state).root.placesUp := by
    rw [evolves.root, split]
    exact List.mem_append_right _ List.mem_cons_self
  obtain ⟨nextFits, visit⟩ := fits.visit false static (Nat.le_trans ready.older evolves.fresh) here
  exact .ofEvolves fits nextFits visit

theorem Ready.iterate_rises (ready : state.Ready around roles bound)
    (static : around.Fits roles bound) (closed : around.Closed) (clear : state.implicit = [])
    {decl : NodeId} {old : Descriptor} (role : roles decl = .other)
    (noted : state.notes.descriptor? decl = some old) (count : Nat) :
    ∃ new, ((around.sweep false)^[count] state).notes.descriptor? decl = some new ∧
      old.Precedes new := by
  induction count with
  | zero => exact ⟨old, noted, old.precedes_refl⟩
  | succ count ih =>
    obtain ⟨middle, found, lower⟩ := ih
    have started := (ready.iterate static closed clear count).1.begin false
    have evolves := (started.fits.walk false static started.older fun _ listed => listed).2
    obtain ⟨new, later, upper⟩ := evolves.rises decl middle role found
    refine ⟨new, ?_, lower.trans upper⟩
    rw [Function.iterate_succ_apply', Surroundings.sweep, notes_settleImplicit]
    exact later

theorem Ready.iterate_ascends (ready : state.Ready around roles bound)
    (static : around.Fits roles bound) (closed : around.Closed) (clear : state.implicit = [])
    (count : Nat) : Ascends around roles state ((around.sweep false)^[count] state) := by
  have afterFits := (ready.iterate static closed clear count).1.fits
  refine ⟨fun _ _ written => ⟨ready.fits.declared written, afterFits.declared written⟩, ?_⟩
  intro decl old role noted
  obtain ⟨new, found, precedes⟩ := ready.iterate_rises static closed clear role noted count
  have plain : roles decl ≠ .expression := by
    rw [role]
    decide
  refine ⟨new, found, fun lookup => ?_⟩
  rw [Descriptor.merge_eq_join lookup (ready.fits.known noted plain) (afterFits.known found plain)]
  exact precedes

end ResolutionState

theorem Surroundings.sweeps_converged {count attempts : Nat} (allowed : count < attempts)
    (unchanged : ((around.sweep false)^[count + 1] state).changed = false) :
    (around.sweeps attempts state).1.converged := by
  induction attempts generalizing state count with
  | zero => exact absurd allowed (Nat.not_lt_zero _)
  | succ attempts ih =>
    unfold sweeps
    dsimp only
    split
    · rename_i changed
      cases count with
      | zero =>
        rw [Function.iterate_one] at unchanged
        rw [unchanged] at changed
        exact nomatch changed
      | succ count => exact ih (Nat.lt_of_succ_lt_succ allowed) unchanged
    · rfl

end Convergence

def Notes.Undeferred (notes : Notes) : Prop :=
  ∀ id descriptor, notes.descriptor? id = some descriptor → descriptor.isDeferred = false

structure SymbolTable.Undeferred (symbols : SymbolTable) : Prop where
  member : ∀ (print : Fingerprint) (member : SymbolMember),
    symbols.members[print]? = some member → member.result.isDeferred = false
  constant : ∀ (print : Fingerprint) (constant : SymbolConstant),
    symbols.constants[print]? = some constant → constant.value.isDeferred = false
  function : ∀ (print : Fingerprint) (function : SymbolFunction),
    symbols.functions[print]? = some function → function.result.isDeferred = false
  formMember : ∀ (name : FoldedName) (symbol : FormSymbol),
    symbols.formMembers[name]? = some symbol → symbol.result.isDeferred = false

def HostForm.Undeferred (form : HostForm) : Prop :=
  ∀ name descriptor, form.find? name = some descriptor → descriptor.isDeferred = false

def ScriptStore.UndeferredBut (store : ScriptStore) (id : ScriptId) : Prop :=
  ∀ other draft, other ≠ id → store.draft? other = some draft → draft.notes.Undeferred

section Given

variable {symbols : SymbolTable} {options : MigrationOptions} {store : ScriptStore}
  {id : ScriptId} {script : Script} {draft : Draft}

theorem Surroundings.others_cases {other : ScriptId} {view : TreeView}
    (seen : (Surroundings.forScript symbols options store id script draft).others[other]? =
      some view) : other ≠ id ∧ ∃ draft', store.draft? other = some draft' ∧ view = draft'.view := by
  have holds : ∀ (other : ScriptId) (view : TreeView),
      (Surroundings.forScript symbols options store id script draft).others[other]? = some view →
        other ≠ id ∧ ∃ draft', store.draft? other = some draft' ∧ view = draft'.view := by
    unfold Surroundings.forScript Surroundings.withDeclared Surroundings.ofScript
    dsimp only
    refine List.foldlRecOn (motive := fun views : Std.HashMap ScriptId TreeView =>
      ∀ (other : ScriptId) (view : TreeView), views[other]? = some view →
        other ≠ id ∧ ∃ draft', store.draft? other = some draft' ∧ view = draft'.view) _ _ ?_ ?_
    · intro other view taken
      simp at taken
    · intro views known added listed other view taken
      have differs : added ≠ id := by simpa using (List.mem_filter.1 listed).2
      split at taken
      · rename_i draft' found
        rw [Std.HashMap.getElem?_insert] at taken
        split at taken
        · rename_i same
          obtain rfl := Option.some.inj taken
          obtain rfl := eq_of_beq same
          exact ⟨differs, draft', found, rfl⟩
        · exact known other view taken
      · exact known other view taken
  exact holds other view seen

theorem Surroundings.forScript_closed (table : symbols.Undeferred)
    (ownForm : ∀ form, script.form = some form → form.Undeferred)
    (others : store.UndeferredBut id) :
    (Surroundings.forScript symbols options store id script draft).Closed := by
  constructor
  · exact fun listed => table.member _ _ listed
  · exact fun listed => table.constant _ _ listed
  · exact fun listed => table.function _ _ listed
  · exact fun listed => table.formMember _ _ listed
  · exact fun isForm found => ownForm _ isForm _ _ found
  · intro other view node type seen noted
    obtain ⟨differs, draft', found, rfl⟩ := Surroundings.others_cases seen
    exact others other draft' differs found node type noted

theorem Draft.Formed.start_ready (formed : draft.Formed) {cache : MemberMemo}
    (faithful : cache.Faithful symbols) :
    ((Surroundings.forScript symbols options store id script draft).start draft cache).Ready
      (Surroundings.forScript symbols options store id script draft) draft.root.roleOf
        draft.fresh := by
  have static : (Surroundings.forScript symbols options store id script draft).Fits _ _ :=
    formed.surroundings_fit
  refine ⟨formed.start_fits cache, ⟨?_, faithful⟩, Nat.le_refl _⟩
  intro decl descriptor noted
  rw [(Surroundings.start_notes _ cache formed.unknown).1] at noted
  exact .of_known (static.declared noted).2

end Given

end ScriptMigration
