import ScriptMigration.Proofs.Resolution.Grounded
import ScriptMigration.Proofs.Resolution.Resolved

/-! Expressions in the last sweep. No pass of a resolution changes an expression, so each one of the
resolved tree is visited as it stands there. What is noted about it in the end is what was found out
at that visit, from what is noted about its parts in the end. -/
namespace ScriptMigration

/-- Where a pass leaves expressions alone and the leaves that it adds are none, the new tree has the
expressions of the old one. -/
theorem Node.Adds.mem_mapUp_of_expression {f : Node → Node} {leaves : Node → List Node}
    {root node : Node} (adds : Adds f leaves) (layers : root.InLayers)
    (fixes : ∀ node : Node, node.shape.family = .expression → f node = node)
    (unlike : ∀ node, ∀ leaf ∈ leaves node, leaf.shape.family ≠ .expression)
    (expression : node.shape.family = .expression) :
    node ∈ (root.mapUp f).descendants ↔ node ∈ root.descendants := by
  have stays {old : Node} (lies : old ∈ root.descendants) (isOld : old.shape.family = .expression) :
      old.mapUp f = old := mapUp_of_fixed fun below deeper =>
    fixes below ((layers.below lies).expression_below isOld below deeper)
  refine ⟨fun inside => ?_, fun lies => adds.mem_descendants_mapUp.2
    ⟨node, lies, .inl (stays lies expression).symm⟩⟩
  obtain ⟨old, lies, rfl | leaf⟩ := adds.mem_descendants_mapUp.1 inside
  · rw [adds.family_mapUp] at expression
    rwa [stays lies expression]
  · exact absurd expression (unlike _ node leaf)

theorem Descriptor.eq_some_deferred_of_beq {known : Option Descriptor} {decl : DeclRef}
    (same : known == some (.deferred decl)) : known = some (.deferred decl) := by
  cases known with
  | none => exact nomatch same
  | some descriptor =>
    cases descriptor with
    | deferred other =>
      have equal : other == decl := same
      rw [beq_iff_eq.1 equal]
    | _ => exact absurd same Bool.false_ne_true

theorem Descriptor.exists_type_of_beq {known : Option Descriptor} {desc : DataType}
    (same : known == some (.type desc)) : ∃ found, known = some (.type found) ∧ found == desc := by
  cases known with
  | none => exact nomatch same
  | some descriptor =>
    cases descriptor with
    | type found => exact ⟨found, rfl, same⟩
    | _ => exact absurd same Bool.false_ne_true

namespace Surroundings

def VisitedAt (around : Surroundings) (start : ResolutionState) (place : Place)
    (moment : ResolutionState) : Prop :=
  ∃ before later, start.root.placesUp = before ++ place :: later ∧
    moment = around.walk true before start

/-- The judgement of an expression in the last sweep: what is found out about it, or that it stands for
the variable that is declared there. -/
inductive Judges (around : Surroundings) (moment : ResolutionState) (place : Place) :
    Judgement → Prop where
  | typed (undeclared : around.declaresAt moment.bodies place = false) :
      Judges around moment place
        (around.typed true moment.notes moment.bodies moment.cache place).1
  | declared (needed : around.declaresAt moment.bodies place) (decl : NodeId) :
      Judges around moment place (.bound (.localVar decl) (some (.deferred ⟨around.script, decl⟩)))

theorem Judges.isSome_binding {around : Surroundings} {moment : ResolutionState} {place : Place}
    {typed : Judgement} (judges : around.Judges moment place typed)
    (reference : place.node.shape.isReference) : typed.binding.isSome := by
  cases judges with
  | typed undeclared =>
    exact (typed_decides (Shape.isExpression_of_isReference reference) _ _ _ undeclared).binding
      reference
  | declared => rfl

/-- An expression, the state in which the last sweep visits it, and what it is judged to be there. All
is said of the notes when the visits are over. -/
structure JudgedIn (around : Surroundings) (roles : NodeId → Role) (start : ResolutionState)
    (notes : Notes) (node : Node) (place : Place) (moment : ResolutionState) (typed : Judgement) :
    Prop where
  same : place.node = node
  visited : around.VisitedAt start place moment
  fits : moment.Fits around roles
  judges : around.Judges moment place typed
  noted : typed.Noted notes node.id
  binding : ∀ part ∈ node.children, notes.binding? part.id = moment.notes.binding? part.id
  descriptor : ∀ part ∈ node.children, notes.descriptor? part.id = moment.notes.descriptor? part.id

variable {around : Surroundings} {draft : Draft} {state : ResolutionState} {node : Node}

theorem mem_settle_of_expression (layers : state.root.InLayers) (knows : around.KnowsOuter)
    (expression : node.shape.family = .expression) :
    node ∈ (around.settle draft state).root.descendants ↔ node ∈ state.root.descendants := by
  have marks := Obligation.apply_adds state.obligations
  have pays : Node.Adds (around.payFields (around.undeferred draft state)) _ := payFields_adds
  have marked := layers.mapUp marks nofun
  have paid := marked.mapUp pays fun type leaf listed => by
    obtain ⟨entry, among, rfl⟩ := List.mem_map.1 listed
    have isType := (newFields_cases knows among).1
    rw [Shape.isType_eq] at isType
    rw [eq_of_beq isType]
    rfl
  refine (Node.withVisibility_adds.mem_mapUp_of_expression paid
    (fun _ => Node.withVisibility_of_expression) nofun expression).trans
      ((pays.mem_mapUp_of_expression marked
        (fun _ family => payFields_of_family (by rw [family]; decide)) ?_ expression).trans
          (marks.mem_mapUp_of_expression layers (fun _ => Obligation.apply_of_expression _) nofun
            expression))
  intro type leaf listed isExpression
  obtain ⟨entry, -, rfl⟩ := List.mem_map.1 listed
  exact nomatch isExpression

end Surroundings

section LastSweep

variable {around : Surroundings} {roles : NodeId → Role} {state moment : ResolutionState} {bound : Nat}
  {place : Place} {node : Node}

namespace ResolutionState.Fits

theorem visit_judges (fits : state.Fits around roles) (static : around.Fits roles bound)
    (older : bound ≤ state.fresh) (inside : place ∈ state.root.placesUp)
    (expression : place.node.shape.isExpression) : ∃ typed, around.Judges state place typed ∧
      typed.Noted (around.sweepNode true state place).notes place.node.id := by
  cases needed : around.declaresAt state.bodies place with
  | false => exact ⟨_, .typed needed, fits.visit_noted static older inside true expression needed⟩
  | true =>
    obtain ⟨_, _, id, middle, _, visited⟩ := Surroundings.sweepNode_of_declares needed true
    rw [visited]
    exact ⟨_, .declared needed id, Surroundings.noteJudgement_noted⟩

/-- What is noted about an expression when the visits are over is its judgement, and of its parts the
same is noted as when it was judged. -/
theorem walk_judges (fits : state.Fits around roles) (static : around.Fits roles bound)
    (older : bound ≤ state.fresh) (layers : state.root.InLayers)
    (visited : around.VisitedAt state place moment)
    (expression : place.node.shape.family = .expression) : ∃ typed, around.JudgedIn roles state
      (around.walk true state.root.placesUp state).notes place.node place moment typed := by
  obtain ⟨before, later, split, rfl⟩ := visited
  have listed : place ∈ state.root.placesUp := split ▸ List.mem_append_right _ List.mem_cons_self
  have inside := Node.node_mem_of_mem_placesUp listed
  obtain ⟨visited, apart, unread, further⟩ := fits.walk_split true static older split
  obtain ⟨middleFits, evolves⟩ := fits.walk true static older fun other among =>
    split ▸ List.mem_append_left _ among
  have here : place ∈ (around.walk true before state).root.placesUp := by
    rw [evolves.root]
    exact listed
  have olderMiddle := Nat.le_trans older evolves.fresh
  obtain ⟨typed, judges, noted⟩ := middleFits.visit_judges static olderMiddle here
    ((Shape.isExpression_iff _).2 expression)
  obtain ⟨-, visit⟩ := middleFits.visit true static olderMiddle here
  have role {part : Node} (among : part ∈ state.root.descendants)
      (family : part.shape.family = .expression) : roles part.id ≠ .other := by
    rw [fits.tree.role part among, family]
    decide
  have isPart {part : Node} (among : part ∈ place.node.children) :
      part ∈ state.root.descendants ∧ part.shape.family = .expression ∧
        ¬visited part.id ∧ part.id ≠ place.node.id := by
    refine ⟨Node.mem_descendants_trans (Node.child_mem_descendants among) inside,
      (layers.below inside).expression_below expression part (Node.child_mem_descendants among),
      unread _ (Place.part_mem_reads among), fun same => ?_⟩
    exact Node.id_not_mem_reads fits.tree.distinct listed (same ▸ Place.part_mem_reads among)
  refine ⟨typed, rfl, ⟨before, later, split, rfl⟩, middleFits, judges,
    noted.congr (further.mode _ apart) (further.binding _ apart)
      (further.descriptor _ apart (role inside expression)), fun part among => ?_, fun part among => ?_⟩
  · obtain ⟨lies, family, unseen, differs⟩ := isPart among
    exact (further.binding _ unseen).trans (visit.binding _ differs)
  · obtain ⟨lies, family, unseen, differs⟩ := isPart among
    exact (further.descriptor _ unseen (role lies family)).trans
      (visit.descriptor _ differs (role lies family))

theorem mem_sweep_of_expression (fits : state.Fits around roles) (static : around.Fits roles bound)
    (older : bound ≤ state.fresh) (layers : state.root.InLayers)
    (expression : node.shape.family = .expression) :
    node ∈ (around.sweep true state).root.descendants ↔ node ∈ state.root.descendants := by
  obtain ⟨implicit, root, locals⟩ := fits.root_sweep true static older
  rw [root]
  refine (declareIn_adds fun entry among => (locals entry among).1).mem_mapUp_of_expression
    layers (fun _ family => declareIn_of_family (by rw [family]; decide)) ?_ expression
  intro old leaf found
  obtain ⟨entry, among, rfl, _⟩ := mem_leavesOf found
  rw [(locals entry among).2]
  decide

theorem sweep_judges_at (fits : state.Fits around roles) (static : around.Fits roles bound)
    (older : bound ≤ state.fresh) (layers : state.root.InLayers)
    (visited : around.VisitedAt { state with changed := false } place moment)
    (expression : place.node.shape.family = .expression) : ∃ typed, around.JudgedIn roles
      { state with changed := false } (around.sweep true state).notes place.node place moment typed := by
  rw [show (around.sweep true state).notes = (around.walk true state.root.placesUp
    { state with changed := false }).notes from notes_settleImplicit _]
  exact (fits.record state.cache state.warnings state.obligations false).walk_judges static older layers
    visited expression

theorem sweep_judges (fits : state.Fits around roles) (static : around.Fits roles bound)
    (older : bound ≤ state.fresh) (layers : state.root.InLayers)
    (inside : node ∈ (around.sweep true state).root.descendants)
    (expression : node.shape.family = .expression) : ∃ place moment typed, around.JudgedIn roles
      { state with changed := false } (around.sweep true state).notes node place moment typed := by
  obtain ⟨place, listed, rfl⟩ := Node.exists_mem_placesUp
    ((fits.mem_sweep_of_expression static older layers expression).1 inside)
  obtain ⟨before, later, split⟩ := List.append_of_mem listed
  exact ⟨place, _, fits.sweep_judges_at static older layers ⟨before, later, split, rfl⟩ expression⟩

end ResolutionState.Fits

end LastSweep

structure Surroundings.Concludes (around : Surroundings) (draft : Draft) (before : ResolutionState)
    (resolved : Draft) : Prop where
  static : around.Fits draft.root.roleOf draft.fresh
  knows : around.KnowsOuter
  underway : before.Underway around draft.root.roleOf draft.fresh
  keeps : before.Keeps draft.root.roleOf draft.root
  last : (around.sweep true before).Underway around draft.root.roleOf draft.fresh
  lastKeeps : (around.sweep true before).Keeps draft.root.roleOf draft.root
  settled : resolved = around.settle draft (around.sweep true before)

namespace Surroundings.Concludes

variable {around : Surroundings} {draft resolved : Draft} {before moment : ResolutionState}
  {place : Place} {node : Node} (concludes : around.Concludes draft before resolved)

include concludes

theorem mem_of_expression (expression : node.shape.family = .expression) :
    node ∈ resolved.root.descendants ↔ node ∈ before.root.descendants := by
  rw [concludes.settled, mem_settle_of_expression concludes.lastKeeps.houses.layers concludes.knows
    expression]
  exact concludes.underway.fits.mem_sweep_of_expression concludes.static concludes.underway.older
    concludes.keeps.houses.layers expression

theorem binding?_eq (id : NodeId) :
    resolved.notes.binding? id = (around.sweep true before).notes.binding? id := by
  rw [concludes.settled, binding?_settle]

theorem judges_at (visited : around.VisitedAt { before with changed := false } place moment)
    (expression : place.node.shape.family = .expression) : ∃ typed, around.JudgedIn draft.root.roleOf
      { before with changed := false } (around.sweep true before).notes place.node place moment typed :=
  concludes.underway.fits.sweep_judges_at concludes.static concludes.underway.older
    concludes.keeps.houses.layers visited expression

theorem judges (inside : node ∈ resolved.root.descendants)
    (expression : node.shape.family = .expression) : ∃ place moment typed, around.JudgedIn
      draft.root.roleOf { before with changed := false } (around.sweep true before).notes node place
        moment typed := by
  obtain ⟨place, listed, rfl⟩ :=
    Node.exists_mem_placesUp ((concludes.mem_of_expression expression).1 inside)
  obtain ⟨early, late, split⟩ := List.append_of_mem listed
  exact ⟨place, _, concludes.judges_at ⟨early, late, split, rfl⟩ expression⟩

end Surroundings.Concludes

theorem ScriptStore.resolve_concludes {store : ScriptStore} {id : ScriptId} {script : Script}
    {draft : Draft} (symbols : SymbolTable) (options : MigrationOptions) (cache : MemberMemo)
    (listed : store.get? id = some script) (read : script.draft? = some draft)
    (prepared : draft.Prepared) :
    ∃ resolved, (store.resolve symbols options cache id).store.draft? id = some resolved ∧
      ∀ around, around = Surroundings.forScript symbols options store id script draft →
        around.Concludes draft (around.beforeLast draft cache) resolved := by
  refine ⟨_, by rw [(resolve_eq symbols options cache listed read).1]; exact draft?_setDraft listed,
    ?_⟩
  rintro around rfl
  have formed := prepared.formed
  have static : (Surroundings.forScript symbols options store id script draft).Fits
      draft.root.roleOf draft.fresh := formed.surroundings_fit
  have underway := ((formed.start_underway cache).sweeps static options.maxAttempts).1
  have keeps := (prepared.start_keeps cache).sweeps (formed.start_underway cache) static
    options.maxAttempts
  exact ⟨static, formed.knowsOuter,
    ⟨underway.fits.record _ _ _ false, underway.older, underway.clear, underway.types⟩,
    ⟨keeps.houses, keeps.binds⟩, underway.sweep static true,
    keeps.sweep underway.fits static underway.older true, rfl⟩

end ScriptMigration
