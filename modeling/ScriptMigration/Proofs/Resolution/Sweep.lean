import ScriptMigration.Proofs.Resolution.Touches

/-! Sweeps. What holds throughout a resolution is kept by every visit, by the walk over a tree, and
when the variables that were declared on the way are put into the tree. -/
namespace ScriptMigration

namespace Surroundings

def walk (around : Surroundings) (final : Bool) (places : List Place) (state : ResolutionState) :
    ResolutionState := places.foldl (around.sweepNode final) state

end Surroundings

/-- The places that are visited later lie in the tree that the first visit leaves. -/
theorem ResolutionState.Evolves.inside_rest {roles : NodeId → Role} {visited : NodeId → Prop}
    {state after : ResolutionState} {place : Place} {rest : List Place}
    (evolves : state.Evolves roles visited after)
    (inside : ∀ other ∈ place :: rest, other ∈ state.root.placesUp) :
    ∀ other ∈ rest, other ∈ after.root.placesUp := by
  intro other later
  rw [evolves.root]
  exact inside other (List.mem_cons_of_mem _ later)

section Walk

variable {around : Surroundings} {roles : NodeId → Role} {state : ResolutionState} {bound : Nat}

namespace ResolutionState.Fits

theorem visit_touches (fits : state.Fits around roles) (final : Bool)
    (static : around.Fits roles bound) (older : bound ≤ state.fresh) {place : Place}
    (inside : place ∈ state.root.placesUp) :
    Touches around roles (fun _ => True) place state (around.sweepNode final state place) :=
  .sweepNode fits static older inside final (fun _ _ => trivial) trivial

theorem visit (fits : state.Fits around roles) (final : Bool) (static : around.Fits roles bound)
    (older : bound ≤ state.fresh) {place : Place} (inside : place ∈ state.root.placesUp) :
    (around.sweepNode final state place).Fits around roles ∧
      state.Evolves roles (· = place.node.id) (around.sweepNode final state place) := by
  have touches := fits.visit_touches final static older inside
  exact ⟨touches.fits static fits, touches.evolves⟩

theorem walk_induction (fits : state.Fits around roles) (final : Bool)
    (static : around.Fits roles bound)
    (older : bound ≤ state.fresh) {places : List Place}
    (inside : ∀ place ∈ places, place ∈ state.root.placesUp) {motive : ResolutionState → Prop}
    (start : motive state)
    (step : ∀ {before : ResolutionState} {place : Place}, before.Fits around roles →
      bound ≤ before.fresh → before.root = state.root → place ∈ places → motive before →
      motive (around.sweepNode final before place)) :
    motive (around.walk final places state) := by
  induction places generalizing state with
  | nil => exact start
  | cons place rest ih =>
    have here := inside place List.mem_cons_self
    obtain ⟨nextFits, evolves⟩ := fits.visit final static older here
    refine ih nextFits (Nat.le_trans older evolves.fresh) (evolves.inside_rest inside) ?_ ?_
    · exact step fits older rfl List.mem_cons_self start
    · intro before other beforeFits olderBefore sameRoot later holds
      exact step beforeFits olderBefore (sameRoot.trans evolves.root)
        (List.mem_cons_of_mem _ later) holds

theorem walk (fits : state.Fits around roles) (final : Bool) (static : around.Fits roles bound)
    (older : bound ≤ state.fresh) {places : List Place}
    (inside : ∀ place ∈ places, place ∈ state.root.placesUp) :
    (around.walk final places state).Fits around roles ∧
      state.Evolves roles (· ∈ places.map (·.node.id)) (around.walk final places state) := by
  refine fits.walk_induction (motive := fun after => after.Fits around roles ∧
    state.Evolves roles (· ∈ places.map (·.node.id)) after) final static older inside
    ⟨fits, .refl state⟩ ?_
  rintro before place beforeFits olderBefore sameRoot listed ⟨_, evolves⟩
  have here : place ∈ before.root.placesUp := sameRoot ▸ inside place listed
  obtain ⟨nextFits, next⟩ := beforeFits.visit final static olderBefore here
  refine ⟨nextFits, evolves.trans (next.mono ?_)⟩
  rintro id rfl
  exact List.mem_map.2 ⟨place, listed, rfl⟩

/-- The visit of a sweep to a place. What is visited after it is neither the node itself nor anything
that is read there. -/
theorem walk_split (fits : state.Fits around roles) (final : Bool)
    (static : around.Fits roles bound) (older : bound ≤ state.fresh) {place : Place}
    {before later : List Place} (split : state.root.placesUp = before ++ place :: later) :
    ∃ visited : NodeId → Prop, ¬ visited place.node.id ∧ (∀ id ∈ place.reads, ¬ visited id) ∧
      (around.sweepNode final (around.walk final before state) place).Evolves roles visited
        (around.walk final state.root.placesUp state) := by
  have inside : ∀ other ∈ before ++ place :: later, other ∈ state.root.placesUp :=
    fun _ among => split ▸ among
  have walked : around.walk final state.root.placesUp state = around.walk final later
      (around.sweepNode final (around.walk final before state) place) := by
    rw [split, Surroundings.walk, List.foldl_append]
    rfl
  have order := Node.placesUp_pairwise_after fits.tree.distinct
  rw [split, List.pairwise_append, List.pairwise_cons] at order
  have after := order.2.1.1
  obtain ⟨middleFits, evolves⟩ := fits.walk final static older
    fun other among => inside other (List.mem_append_left _ among)
  have here : place ∈ (around.walk final before state).root.placesUp := by
    rw [evolves.root]
    exact inside place (List.mem_append_right _ List.mem_cons_self)
  have olderMiddle := Nat.le_trans older evolves.fresh
  obtain ⟨nextFits, visit⟩ := middleFits.visit final static olderMiddle here
  have insideLater : ∀ other ∈ later, other ∈
      (around.sweepNode final (around.walk final before state) place).root.placesUp := by
    intro other among
    rw [visit.root, evolves.root]
    exact inside other (List.mem_append_right _ (List.mem_cons_of_mem _ among))
  refine ⟨(· ∈ later.map (·.node.id)), ?_, ?_, ?_⟩
  · intro again
    obtain ⟨other, among, same⟩ := List.mem_map.1 again
    exact (after other among).1 same
  · intro id read again
    obtain ⟨other, among, rfl⟩ := List.mem_map.1 again
    exact (after other among).2 read
  · rw [walked]
    exact (nextFits.walk final static (Nat.le_trans olderMiddle visit.fresh) insideLater).2

theorem exists_visit (fits : state.Fits around roles) (final : Bool)
    (static : around.Fits roles bound) (older : bound ≤ state.fresh) {place : Place}
    (listed : place ∈ state.root.placesUp) :
    ∃ before, (∀ other ∈ before, other ∈ state.root.placesUp) ∧ ∃ visited : NodeId → Prop,
      ¬ visited place.node.id ∧ (∀ id ∈ place.reads, ¬ visited id) ∧
      (around.sweepNode final (around.walk final before state) place).Evolves roles visited
        (around.walk final state.root.placesUp state) := by
  obtain ⟨before, later, split⟩ := List.append_of_mem listed
  refine ⟨before, fun other among => ?_, fits.walk_split final static older split⟩
  rw [split]
  exact List.mem_append_left _ among

end ResolutionState.Fits

end Walk

theorem Node.methodDecl?_eq_none {node : Node} (differs : node.shape.family ≠ .method) :
    node.methodDecl? = none := by
  unfold methodDecl?
  split
  · rename_i decl shape
    rw [shape] at differs
    exact absurd rfl differs
  · rfl

namespace ResolutionState

variable {implicit : List ImplicitLocal}

def leavesOf (implicit : List ImplicitLocal) (node : Node) : List Node :=
  if node.shape.family = .block then (implicit.filter (·.block == node.id)).map (·.decl) else []

theorem declareIn_of_family {node : Node} (differs : node.shape.family ≠ .block) :
    declareIn implicit node = node := by
  unfold declareIn
  split
  · rename_i stmts shape
    rw [shape] at differs
    exact absurd rfl differs
  · rfl

theorem declareIn_block {node : Node} {stmts : List Node} (shape : node.shape = .block stmts) :
    (declareIn implicit node).info = node.info ∧
      (declareIn implicit node).shape = .block (leavesOf implicit node ++ stmts) := by
  have leaves : leavesOf implicit node =
      (implicit.filter (·.block == node.id)).map (·.decl) := by
    unfold leavesOf
    rw [shape]
    rfl
  unfold declareIn
  rw [leaves]
  simp only [shape]
  cases implicit.filter (·.block == node.id) with
  | nil => exact ⟨rfl, shape⟩
  | cons entry rest => exact ⟨rfl, rfl⟩

theorem family_declareIn (node : Node) :
    (declareIn implicit node).shape.family = node.shape.family := by
  by_cases isBlock : node.shape.family = .block
  · obtain ⟨stmts, shape⟩ := (Shape.family_eq_block_iff _).1 isBlock
    rw [(declareIn_block shape).2, shape]
    rfl
  · rw [declareIn_of_family isBlock]

theorem id_declareIn (node : Node) : (declareIn implicit node).id = node.id := by
  by_cases isBlock : node.shape.family = .block
  · obtain ⟨stmts, shape⟩ := (Shape.family_eq_block_iff _).1 isBlock
    exact congrArg NodeInfo.id (declareIn_block shape).1
  · rw [declareIn_of_family isBlock]

theorem declareIn_adds (bare : ∀ entry ∈ implicit, entry.decl.children = []) :
    Node.Adds (declareIn implicit) (leavesOf implicit) := by
  constructor
  · exact id_declareIn
  · exact family_declareIn
  · intro node
    by_cases isBlock : node.shape.family = .block
    · obtain ⟨stmts, shape⟩ := (Shape.family_eq_block_iff _).1 isBlock
      simp only [Node.children, (declareIn_block shape).2, shape, Shape.children]
    · rw [declareIn_of_family isBlock, leavesOf, if_neg isBlock]
      rfl
  · intro node leaf found
    unfold leavesOf at found
    split at found
    · obtain ⟨entry, among, rfl⟩ := List.mem_map.1 found
      exact bare entry (List.mem_filter.1 among).1
    · simp at found

theorem mem_leavesOf {node leaf : Node} (found : leaf ∈ leavesOf implicit node) :
    ∃ entry ∈ implicit, entry.decl = leaf ∧ entry.block = node.id := by
  unfold leavesOf at found
  split at found
  · obtain ⟨entry, among, rfl⟩ := List.mem_map.1 found
    obtain ⟨listed, here⟩ := List.mem_filter.1 among
    exact ⟨entry, listed, rfl, by simpa using here⟩
  · simp at found

theorem family_of_mem_leavesOf {node leaf : Node} (found : leaf ∈ leavesOf implicit node) :
    node.shape.family = .block := by
  by_contra differs
  rw [leavesOf, if_neg differs] at found
  exact nomatch found

/-- Putting in the variables that were declared changes nothing where there are none, so it is the
same pass over the tree in either case. -/
theorem settleImplicit_eq (state : ResolutionState) : state.settleImplicit =
    { state with root := state.root.mapUp (declareIn state.implicit), implicit := [] } := by
  unfold settleImplicit
  split
  · rename_i none'
    have fixed (node : Node) : declareIn [] node = node := by
      unfold declareIn
      split <;> rfl
    rw [none', Node.mapUp_of_fixed fun node _ => fixed node, ← none']
  · rfl

@[simp] theorem root_settleImplicit (state : ResolutionState) :
    state.settleImplicit.root = state.root.mapUp (declareIn state.implicit) := by
  rw [settleImplicit_eq]

@[simp] theorem implicit_settleImplicit (state : ResolutionState) :
    state.settleImplicit.implicit = [] := by
  rw [settleImplicit_eq]

@[simp] theorem notes_settleImplicit (state : ResolutionState) :
    state.settleImplicit.notes = state.notes := by
  rw [settleImplicit_eq]

@[simp] theorem fresh_settleImplicit (state : ResolutionState) :
    state.settleImplicit.fresh = state.fresh := by
  rw [settleImplicit_eq]

@[simp] theorem changed_settleImplicit (state : ResolutionState) :
    state.settleImplicit.changed = state.changed := by
  rw [settleImplicit_eq]

@[simp] theorem cache_settleImplicit (state : ResolutionState) :
    state.settleImplicit.cache = state.cache := by
  rw [settleImplicit_eq]

@[simp] theorem warnings_settleImplicit (state : ResolutionState) :
    state.settleImplicit.warnings = state.warnings := by
  rw [settleImplicit_eq]

@[simp] theorem obligations_settleImplicit (state : ResolutionState) :
    state.settleImplicit.obligations = state.obligations := by
  rw [settleImplicit_eq]

theorem settleImplicit_of_nil {state : ResolutionState} (none' : state.implicit = []) :
    state.settleImplicit = state := by
  unfold settleImplicit
  rw [none']

theorem mem_children_mapUp_declareIn (bare : ∀ entry ∈ implicit, entry.decl.children = [])
    {entry : ImplicitLocal} (listed : entry ∈ implicit) {block : Node} (here : block.id = entry.block)
    (isBlock : block.shape.family = .block) :
    entry.decl ∈ (block.mapUp (declareIn implicit)).children := by
  rw [(declareIn_adds bare).children_mapUp]
  refine List.mem_append_left _ ?_
  rw [leavesOf, if_pos (by rw [Node.family_rebuilt, isBlock])]
  refine List.mem_map.2 ⟨entry, List.mem_filter.2 ⟨listed, ?_⟩, rfl⟩
  rw [Node.id_rebuilt, here]
  exact beq_self_eq_true _

theorem leaves_nodup {root : Node} (distinct : root.Distinct)
    (apart : (implicit.map (·.decl.id)).Nodup) :
    (root.descendants.flatMap fun old =>
      (leavesOf implicit (old.rebuilt (declareIn implicit))).map Node.id).Nodup := by
  refine List.nodup_flatMap.2 ⟨fun old _ => ?_, ?_⟩
  · unfold leavesOf
    split
    · rw [List.map_map]
      exact apart.sublist (List.Sublist.map _ List.filter_sublist)
    · exact List.nodup_nil
  · refine (List.pairwise_map.1 distinct).imp fun {left right} differ => ?_
    intro id inLeft inRight
    obtain ⟨leaf, found, rfl⟩ := List.mem_map.1 inLeft
    obtain ⟨leaf', found', same⟩ := List.mem_map.1 inRight
    obtain ⟨entry, listed, rfl, here⟩ := mem_leavesOf found
    obtain ⟨entry', listed', rfl, here'⟩ := mem_leavesOf found'
    have equal : entry' = entry := List.inj_on_of_nodup_map apart listed' listed same
    rw [equal, here] at here'
    exact differ here'

theorem shape_mapUp_declareIn {node : Node} (differs : node.shape.family ≠ .block) :
    (node.mapUp (declareIn implicit)).shape =
      node.shape.mapParts fun part _ => part.mapUp (declareIn implicit) := by
  rw [Node.mapUp_eq, declareIn_of_family (by rwa [Node.family_rebuilt])]
  rfl

theorem family_mapUp_declareIn (node : Node) :
    (node.mapUp (declareIn implicit)).shape.family = node.shape.family := by
  rw [Node.mapUp_eq, family_declareIn, Node.family_rebuilt]

theorem methodDecl?_mapUp_declareIn (node : Node) :
    (node.mapUp (declareIn implicit)).methodDecl? = node.methodDecl?.map fun decl =>
      { decl with
        params := decl.params.map (Node.mapUp (declareIn implicit))
        body := decl.body.mapUp (declareIn implicit) } := by
  by_cases isMethod : node.shape.family = .method
  · unfold Node.methodDecl?
    rw [shape_mapUp_declareIn (by rw [isMethod]; decide)]
    cases shape : node.shape with
    | method decl => simp [Shape.mapParts]
    | loop test body => cases test <;> rfl
    | _ => rfl
  · have mapped : (node.mapUp (declareIn implicit)).shape.family ≠ .method := by
      rwa [family_mapUp_declareIn]
    rw [Node.methodDecl?_eq_none mapped, Node.methodDecl?_eq_none isMethod]
    rfl

theorem mapOption_eq_map {α β : Type} (part : Option α) (f : α → β) :
    (Shape.mapOption part fun part _ => f part) = part.map f := by
  cases part <;> rfl

theorem source?_mapUp_declareIn {node : Node} {decl : PropertyDecl Node} {source : Node}
    (shape : (node.mapUp (declareIn implicit)).shape = .property decl)
    (found : decl.source? = some source) :
    ∃ decl' source', node.shape = .property decl' ∧ decl'.source? = some source' ∧
      source = source'.mapUp (declareIn implicit) := by
  have family : node.shape.family = .property := by
    rw [← family_mapUp_declareIn, shape]
    rfl
  rw [shape_mapUp_declareIn (by rw [family]; decide)] at shape
  obtain ⟨decl', origin⟩ := (Shape.family_eq_property_iff _).1 family
  rw [origin] at shape
  simp only [Shape.mapParts, mapOption_eq_map] at shape
  obtain rfl := Shape.property.inj shape
  refine ⟨decl', ?_⟩
  unfold PropertyDecl.source? at found ⊢
  cases getter : decl'.getter with
  | some node' =>
    simp only [getter, Option.map_some] at found
    exact ⟨node', origin, rfl, (Option.some.inj found).symm⟩
  | none =>
    simp only [getter, Option.map_none, ← Option.map_or] at found
    obtain ⟨method, ofAccessor, last⟩ := Option.bind_eq_some_iff.1 found
    obtain ⟨accessor, taken, isMethod⟩ := Option.bind_eq_some_iff.1 ofAccessor
    obtain ⟨accessor', taken', rfl⟩ := Option.map_eq_some_iff.1 taken
    rw [methodDecl?_mapUp_declareIn] at isMethod
    obtain ⟨method', isMethod', rfl⟩ := Option.map_eq_some_iff.1 isMethod
    simp only [List.getLast?_map] at last
    obtain ⟨param, last', rfl⟩ := Option.map_eq_some_iff.1 last
    refine ⟨param, origin, ?_, rfl⟩
    simp only [taken', Option.bind_some, isMethod', last']

end ResolutionState

namespace ResolutionState.Fits

variable {around : Surroundings} {roles : NodeId → Role} {state : ResolutionState} {bound : Nat}

theorem conforms_mapUp (fits : state.Fits around roles) :
    (state.root.mapUp (declareIn state.implicit)).Conforms roles state.fresh := by
  have adds := declareIn_adds fun entry listed => (fits.implicit entry listed).2.2.1
  have leaf {old below : Node}
      (found : below ∈ leavesOf state.implicit (old.rebuilt (declareIn state.implicit))) :
      ∃ entry ∈ state.implicit, entry.decl = below := by
    obtain ⟨entry, listed, same, _⟩ := mem_leavesOf found
    exact ⟨entry, listed, same⟩
  constructor
  · refine adds.distinct_mapUp fits.tree.distinct ?_ (leaves_nodup fits.tree.distinct fits.apart)
    intro old _ below found
    obtain ⟨entry, listed, rfl⟩ := leaf found
    exact (fits.implicit entry listed).2.1
  · intro node inside
    obtain ⟨old, lies, rfl | found⟩ := adds.mem_descendants_mapUp.1 inside
    · rw [adds.id_mapUp, adds.family_mapUp]
      exact fits.tree.role old lies
    · obtain ⟨entry, listed, rfl⟩ := leaf found
      obtain ⟨plain, _, _, family⟩ := fits.implicit entry listed
      rw [plain.role, family]
      rfl
  · intro node inside
    obtain ⟨old, lies, rfl | found⟩ := adds.mem_descendants_mapUp.1 inside
    · rw [adds.id_mapUp]
      exact fits.tree.small old lies
    · obtain ⟨entry, listed, rfl⟩ := leaf found
      exact (fits.implicit entry listed).1.small
  · intro node inside decl source shape isSource
    obtain ⟨old, lies, rfl | found⟩ := adds.mem_descendants_mapUp.1 inside
    · obtain ⟨decl', source', shape', isSource', rfl⟩ := source?_mapUp_declareIn shape isSource
      rw [adds.id_mapUp]
      exact fits.tree.source old lies decl' source' shape' isSource'
    · obtain ⟨entry, listed, rfl⟩ := leaf found
      have family := (fits.implicit entry listed).2.2.2
      rw [shape] at family
      exact absurd family (by simp [Shape.family])

theorem settleImplicit (fits : state.Fits around roles) :
    state.settleImplicit.Fits around roles := by
  rw [settleImplicit_eq]
  exact { fits with
    tree := fits.conforms_mapUp
    implicit := fun _ listed => nomatch listed
    apart := List.nodup_nil }

theorem sweep (fits : state.Fits around roles) (final : Bool) (static : around.Fits roles bound)
    (older : bound ≤ state.fresh) : (around.sweep final state).Fits around roles := by
  have started := fits.record state.cache state.warnings state.obligations false
  exact (started.walk final static older fun _ listed => listed).1.settleImplicit

theorem sweep_fresh_le (fits : state.Fits around roles) (final : Bool)
    (static : around.Fits roles bound) (older : bound ≤ state.fresh) :
    state.fresh ≤ (around.sweep final state).fresh := by
  have started := fits.record state.cache state.warnings state.obligations false
  rw [Surroundings.sweep, fresh_settleImplicit]
  exact (started.walk final static older fun _ listed => listed).2.fresh

/-- What a sweep does to the tree: it puts in the variables that were declared on the way. -/
theorem root_sweep (fits : state.Fits around roles) (final : Bool) (static : around.Fits roles bound)
    (older : bound ≤ state.fresh) : ∃ implicit : List ImplicitLocal,
      (around.sweep final state).root = state.root.mapUp (declareIn implicit) ∧
        ∀ entry ∈ implicit, entry.decl.children = [] ∧ entry.decl.shape.family = .localVar := by
  have started := fits.record state.cache state.warnings state.obligations false
  obtain ⟨walkedFits, evolves⟩ := started.walk final static older fun _ listed => listed
  refine ⟨_, (root_settleImplicit _).trans (congrArg (Node.mapUp (declareIn _)) evolves.root),
    fun entry among => ?_⟩
  obtain ⟨_, _, bare, family⟩ := walkedFits.implicit entry among
  exact ⟨bare, family⟩

end ResolutionState.Fits

end ScriptMigration
