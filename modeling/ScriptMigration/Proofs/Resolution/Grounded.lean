import ScriptMigration.Proofs.Resolution.Referred

/-! Resolving a script keeps the layers of its tree and all its procedures, whatever the symbol table
and the form of the script offer. Variables that are declared go into bodies, and fields that are owed
into types. -/
namespace ScriptMigration

def MethodDecl.signature {α : Type} (decl : MethodDecl α) : MethodKind × Nat :=
  (decl.kind, decl.params.length)

def Node.HasProcedure (root : Node) (id : NodeId) (signature : MethodKind × Nat) : Prop :=
  ∃ node ∈ root.descendants, node.id = id ∧
    node.methodDecl?.map MethodDecl.signature = some signature

/-- A draft in layers, in which only expressions are bound, and to nothing that is still to be made. -/
structure Draft.Grounded (draft : Draft) : Prop extends draft.Tidy where
  layers : draft.root.InLayers
  expression : ∀ {node : Node} {binding : Binding}, node ∈ draft.root.descendants →
    draft.notes.binding? node.id = some binding → node.shape.family = .expression
  aims : ∀ {id decl : NodeId} {binding : Binding}, draft.notes.binding? id = some binding →
    binding.target? = some decl → decl.index < draft.fresh

section Procedures

variable {root : Node} {id : NodeId} {signature : MethodKind × Nat}

theorem Node.HasProcedure.mapUp {f : Node → Node} {leaves : Node → List Node} (adds : Adds f leaves)
    (signatures : ∀ node, (f node).methodDecl?.map MethodDecl.signature =
      node.methodDecl?.map MethodDecl.signature)
    (has : root.HasProcedure id signature) : (root.mapUp f).HasProcedure id signature := by
  obtain ⟨node, inside, rfl, isDeclared⟩ := has
  refine ⟨node.mapUp f, adds.mem_descendants_mapUp.2 ⟨node, inside, .inl rfl⟩, adds.id_mapUp node, ?_⟩
  rw [mapUp_eq, signatures, methodDecl?_rebuilt, Option.map_map, ← isDeclared]
  exact Option.map_congr fun decl _ => by simp [MethodDecl.signature]

theorem ResolutionState.signature_declareIn (implicit : List ImplicitLocal) (node : Node) :
    (declareIn implicit node).methodDecl?.map MethodDecl.signature =
      node.methodDecl?.map MethodDecl.signature := by
  by_cases isBlock : node.shape.family = .block
  · obtain ⟨stmts, shape⟩ := (Shape.family_eq_block_iff _).1 isBlock
    simp only [Node.methodDecl?, (declareIn_block shape).2, shape]
  · rw [declareIn_of_family isBlock]

theorem Obligation.signature_apply (obligations : Std.HashSet Obligation) (node : Node) :
    (apply obligations node).methodDecl?.map MethodDecl.signature =
      node.methodDecl?.map MethodDecl.signature := by
  rcases node with ⟨info, shape⟩
  cases shape with
  | field | method | property =>
    simp only [apply, Node.shape]
    split <;> rfl
  | _ => rfl

theorem Surroundings.signature_payFields (around : Surroundings) (draft : Draft) (node : Node) :
    (around.payFields draft node).methodDecl?.map MethodDecl.signature =
      node.methodDecl?.map MethodDecl.signature := by
  rcases node with ⟨info, shape⟩
  cases shape <;> rfl

theorem Obligation.apply_of_inner (obligations : Std.HashSet Obligation) {node : Node}
    (inner : node.shape.family.isInner) : apply obligations node = node := by
  rcases node with ⟨info, shape⟩
  cases shape with
  | type | field | method | property => exact nomatch inner
  | _ => rfl

theorem Node.withVisibility_of_inner {node : Node} (inner : node.shape.family.isInner) :
    node.withVisibility = node := by
  rcases node with ⟨info, shape⟩
  cases shape with
  | type | field | method | property => exact nomatch inner
  | _ => rfl

theorem Node.signature_withVisibility (node : Node) :
    node.withVisibility.methodDecl?.map MethodDecl.signature =
      node.methodDecl?.map MethodDecl.signature := by
  rcases node with ⟨info, shape⟩
  cases shape with
  | type | field | method | property =>
    simp only [withVisibility, Node.shape]
    split <;> rfl
  | _ => rfl

end Procedures

section Sweeps

variable {around : Surroundings} {roles : NodeId → Role} {state : ResolutionState} {bound : Nat}
  {old : Node}

/-- A statement or a variable without a body in it. -/
structure Node.Plain (node : Node) : Prop where
  outer : node.shape.family ≠ .expression
  inner : ∀ below ∈ node.descendants, below.shape.family.isInner ∧ below.shape.family ≠ .block

theorem Node.Plain.of_expressions {node : Node} (layers : node.InLayers)
    (held : Shape.Family.block.holds node.shape.family)
    (parts : ∀ part ∈ node.children, part.shape.family = .expression) : node.Plain := by
  have outer : node.shape.family ≠ .expression := by
    intro same
    rw [same] at held
    exact nomatch held
  refine ⟨outer, fun below lies => ?_⟩
  rcases Node.mem_descendants_cases lies with rfl | ⟨part, isPart, deeper⟩
  · refine ⟨Shape.Family.isInner_of_holds rfl held, fun same => ?_⟩
    rw [same] at held
    exact nomatch held
  · rw [(layers.child isPart).expression_below (parts part isPart) below deeper]
    decide

/-- A tree in layers with the nodes of another, the same procedures, and with its statements in
them. -/
structure Node.Houses (root old : Node) : Prop where
  layers : root.InLayers
  nodes : ∀ node ∈ old.descendants, ∃ image ∈ root.descendants, image.id = node.id ∧
    image.shape.family = node.shape.family
  procedures : ∀ id signature, old.HasProcedure id signature → root.HasProcedure id signature
  stmts : ∀ setting node, old.Stands setting node → node.Plain → root.Stands setting node

theorem Node.Houses.mapUp {root : Node} (houses : root.Houses old) {f : Node → Node}
    {leaves : Node → List Node} (adds : Adds f leaves)
    (fitting : ∀ node : Node, ∀ leaf ∈ leaves node, node.shape.family.holds leaf.shape.family)
    (signatures : ∀ node, (f node).methodDecl?.map MethodDecl.signature =
      node.methodDecl?.map MethodDecl.signature)
    (fixed : ∀ node : Node, node.shape.family.isInner → node.shape.family ≠ .block → f node = node) :
    (root.mapUp f).Houses old := by
  refine ⟨houses.layers.mapUp adds fitting, fun node inside => ?_, fun id signature has =>
    (houses.procedures id signature has).mapUp adds signatures, fun setting node stands plain => ?_⟩
  · obtain ⟨image, lies, id, family⟩ := houses.nodes node inside
    exact ⟨image.mapUp f, adds.mem_descendants_mapUp.2 ⟨image, lies, .inl rfl⟩,
      (adds.id_mapUp image).trans id, (adds.family_mapUp image).trans family⟩
  obtain ⟨_, stands', _, rfl⟩ := (adds.alters.carries root).stays (Alters.carried_root f root)
    houses.layers.nested (houses.stmts setting node stands plain) plain.outer
  rwa [mapUp_of_fixed fun below lies => fixed below (plain.inner below lies).1
    (plain.inner below lies).2] at stands'

def Notes.BindsExpressions (notes : Notes) (roles : NodeId → Role) : Prop :=
  ∀ id binding, notes.binding? id = some binding → roles id = .expression

theorem Touches.bindsExpressions {place : Place} {allowed : Descriptor → Prop}
    {after : ResolutionState} (touches : Touches around roles allowed place state after)
    (binds : state.notes.BindsExpressions roles) : after.notes.BindsExpressions roles := by
  induction touches with
  | refl => exact binds
  | tail _ touch ih =>
    cases touch with
    | declare _ taken =>
      obtain ⟨_, _, _, _, _, rfl⟩ := ResolutionState.declare_eq_some taken
      exact ih
    | bind binding role =>
      intro id other noted
      rw [Notes.binding?_bind] at noted
      split at noted
      · rename_i isPlace
        exact isPlace ▸ role
      · exact ih id other noted
    | record | decide | judge | copy | rise => exact ih

namespace ResolutionState

/-- What a resolution keeps: the layers of its tree, the procedures, and that only expressions are
bound. -/
structure Keeps (state : ResolutionState) (roles : NodeId → Role) (old : Node) : Prop where
  houses : state.root.Houses old
  binds : state.notes.BindsExpressions roles

namespace Keeps

theorem settleImplicit (keeps : state.Keeps roles old)
    (fits : state.Fits around roles) : state.settleImplicit.Keeps roles old := by
  rw [settleImplicit_eq]
  have adds := declareIn_adds fun entry listed => (fits.implicit entry listed).2.2.1
  refine ⟨keeps.houses.mapUp adds (fun node leaf found => ?_) (signature_declareIn _)
    fun _ _ => declareIn_of_family, keeps.binds⟩
  obtain ⟨entry, listed, rfl, _⟩ := mem_leavesOf found
  rw [family_of_mem_leavesOf found, (fits.implicit entry listed).2.2.2]
  rfl

theorem walk (keeps : state.Keeps roles old) (fits : state.Fits around roles)
    (static : around.Fits roles bound) (older : bound ≤ state.fresh) (final : Bool) :
    (around.walk final state.root.placesUp state).Keeps roles old := by
  refine ⟨?_, ?_⟩
  · rw [(fits.walk final static older fun _ listed => listed).2.root]
    exact keeps.houses
  · refine fits.walk_induction final static older (fun _ listed => listed)
      (motive := (·.notes.BindsExpressions roles)) keeps.binds ?_
    intro before place beforeFits olderBefore sameRoot listed binds
    have touches := beforeFits.visit_touches final static olderBefore (sameRoot ▸ listed)
    exact touches.bindsExpressions binds

theorem sweep (keeps : state.Keeps roles old) (fits : state.Fits around roles)
    (static : around.Fits roles bound) (older : bound ≤ state.fresh) (final : Bool) :
    (around.sweep final state).Keeps roles old := by
  have started : { state with changed := false }.Keeps roles old := ⟨keeps.houses, keeps.binds⟩
  have startedFits := fits.record state.cache state.warnings state.obligations false
  exact (started.walk startedFits static older final).settleImplicit
    (startedFits.walk final static older fun _ listed => listed).1

theorem sweeps (keeps : state.Keeps roles old)
    (underway : state.Underway around roles bound) (static : around.Fits roles bound)
    (attempts : Nat) : (around.sweeps attempts state).2.Keeps roles old :=
  underway.sweeps_induction static (motive := (·.Keeps roles old)) keeps
    (fun underway keeps => keeps.sweep underway.fits static underway.older false) attempts

/-- What a sweep keeps in a tree that grows from the one at the start holds after all of them. -/
theorem sweeps_induction (keeps : state.Keeps roles old)
    (underway : state.Underway around roles bound) (static : around.Fits roles bound)
    {motive : ResolutionState → Prop} (start : motive state)
    (step : ∀ {before : ResolutionState}, before.Keeps roles old →
      before.Underway around roles bound → motive before → motive (around.sweep false before))
    (attempts : Nat) : motive (around.sweeps attempts state).2 := by
  refine (underway.sweeps_induction static
    (motive := fun state => state.Keeps roles old ∧ motive state) ⟨keeps, start⟩ ?_ attempts).2
  intro before underway holds
  exact ⟨holds.1.sweep underway.fits static underway.older false, step holds.1 underway holds.2⟩

/-- The last changes of a resolution keep the same, now said of the nodes of the tree. -/
theorem settle (keeps : state.Keeps roles old) (fits : state.Fits around roles)
    (outer : around.KnowsOuter) (draft : Draft) :
    (around.settle draft state).Grounded ∧ (around.settle draft state).root.Houses old := by
  have none' (node : Node) : ∀ leaf ∈ ([] : List Node),
      node.shape.family.holds leaf.shape.family := fun _ absurd => nomatch absurd
  have houses : (around.settle draft state).root.Houses old := by
    rw [Surroundings.root_settle]
    have marked := keeps.houses.mapUp (Obligation.apply_adds state.obligations) none'
      (Obligation.signature_apply _) fun _ inner _ => Obligation.apply_of_inner _ inner
    refine (marked.mapUp Surroundings.payFields_adds (fun node leaf found => ?_)
      (Surroundings.signature_payFields _ _) fun node inner _ => ?_).mapUp Node.withVisibility_adds none'
      Node.signature_withVisibility fun _ inner _ => Node.withVisibility_of_inner inner
    case refine_2 =>
      refine Surroundings.payFields_of_family fun isType => ?_
      rw [isType] at inner
      exact nomatch inner
    obtain ⟨entry, listed, rfl⟩ := List.mem_map.1 found
    have isType := (Surroundings.newFields_cases outer listed).1
    rw [Shape.isType_eq] at isType
    rw [eq_of_beq isType]
    rfl
  refine ⟨⟨.settle fits.tree.distinct fits.tree.small, houses.layers, fun {node} {binding} inside noted => ?_,
    fun noted aims => ?_⟩, houses⟩
  · have role := keeps.binds node.id binding ((Surroundings.binding?_settle _).symm.trans noted)
    rcases Surroundings.mem_settle inside with ⟨old, lies, traces⟩ | ⟨entry, listed, same, _⟩
    · rw [traces.id, fits.tree.role old lies] at role
      rw [traces.family]
      cases family : old.shape.family <;> rw [family] at role <;>
        first | rfl | exact nomatch role
    · obtain ⟨type, _, among⟩ := List.mem_flatMap.1 listed
      have large : state.fresh ≤ entry.1.index := (Surroundings.newFields_cases outer among).2.1
      rw [← same, fits.later _ large] at role
      exact nomatch role
  · have noted := (Surroundings.binding?_settle _).symm.trans noted
    exact Nat.lt_of_lt_of_le (fits.target noted aims).small
      (Nat.le_mul_of_pos_left _ (by decide))

end Keeps

end ResolutionState

end Sweeps

namespace Draft.Prepared

variable {symbols : SymbolTable} {options : MigrationOptions} {store : ScriptStore}
  {id : ScriptId} {script : Script} {draft : Draft}

/-- Before the first sweep the tree is that of the draft, and nothing is bound. -/
theorem start_keeps (prepared : draft.Prepared) (cache : MemberMemo) :
    ((Surroundings.forScript symbols options store id script draft).start draft cache).Keeps
      draft.root.roleOf draft.root :=
  ⟨⟨prepared.layered.layers, fun node inside => ⟨node, inside, rfl, rfl⟩, fun _ _ has => has,
    fun _ _ stands _ => stands⟩, fun other _ noted =>
      nomatch ((Surroundings.start_notes _ cache prepared.formed.unknown).2 other).symm.trans noted⟩

/-- A resolved draft is what the last sweep leaves, settled. What every sweep keeps holds of it. -/
theorem resolveDraft_induction (prepared : draft.Prepared) (cache : MemberMemo) {resolved : Draft}
    {around : Surroundings} (isAround : around = .forScript symbols options store id script draft)
    (isResolved : (around.resolveDraft draft cache).draft = resolved)
    {motive : ResolutionState → Prop} (start : motive (around.start draft cache))
    (step : ∀ {before : ResolutionState} (final : Bool), around.Fits draft.root.roleOf draft.fresh →
      before.Keeps draft.root.roleOf draft.root →
      before.Underway around draft.root.roleOf draft.fresh → motive before →
      motive (around.sweep final before)) :
    around.KnowsOuter ∧ around.Fits draft.root.roleOf draft.fresh ∧
      ∃ before, before.Underway around draft.root.roleOf draft.fresh ∧
        (around.sweep true before).Keeps draft.root.roleOf draft.root ∧
        motive (around.sweep true before) ∧
        resolved = around.settle draft (around.sweep true before) := by
  have formed := prepared.formed
  have outer : around.KnowsOuter := isAround ▸ formed.knowsOuter
  have static : around.Fits draft.root.roleOf draft.fresh := isAround ▸ formed.surroundings_fit
  have underway : (around.start draft cache).Underway around draft.root.roleOf draft.fresh :=
    isAround ▸ formed.start_underway cache
  have starts : (around.start draft cache).Keeps draft.root.roleOf draft.root :=
    isAround ▸ prepared.start_keeps cache
  have swept := starts.sweeps underway static around.options.maxAttempts
  have later := (underway.sweeps static around.options.maxAttempts).1
  have kept := starts.sweeps_induction underway static start
    (fun keeps underway holds => step false static keeps underway holds) around.options.maxAttempts
  exact ⟨outer, static, _, later, swept.sweep later.fits static later.older true,
    step true static swept later kept, isResolved.symm⟩

theorem resolveDraft_grounded (prepared : draft.Prepared) (cache : MemberMemo) {resolved : Draft}
    (isResolved : ((Surroundings.forScript symbols options store id script draft).resolveDraft draft
      cache).draft = resolved) :
    resolved.Grounded ∧ resolved.root.Houses draft.root := by
  obtain ⟨outer, static, before, underway, keeps, -, rfl⟩ := prepared.resolveDraft_induction cache
    rfl isResolved (motive := fun _ => True) trivial fun _ _ _ _ _ => trivial
  exact keeps.settle (underway.sweep static true).fits outer draft

end Draft.Prepared

end ScriptMigration
