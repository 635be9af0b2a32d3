import ScriptMigration.Proofs.Descriptor.Absorb
import ScriptMigration.Proofs.Resolution.Settling

/-! What declarations have taken in when a script is resolved. A declaration absorbs whatever a value
stood for at the moment when it flowed into the declaration for the last time. A value that refers to
another declaration may stand for more in the end, when that one has risen after the moment. -/
namespace ScriptMigration

namespace Surroundings

variable {around : Surroundings}

/-- The moment of the last sweep, begun from `start`, when a flow at a place is let into its
declaration. -/
def TakenAt (around : Surroundings) (start : ResolutionState) (place : Place) (flow : Inflow)
    (moment : ResolutionState) : Prop :=
  ∃ before later earlier rest, start.root.placesUp = before ++ place :: later ∧
    around.inflows (around.judge true place (around.walk true before start)).notes place.node =
      earlier ++ flow :: rest ∧
    moment = earlier.foldl around.pour (around.judge true place (around.walk true before start))

theorem inflows_congr {notes notes' : Notes} {node : Node}
    (same : ∀ part ∈ node.children, notes.binding? part.id = notes'.binding? part.id) :
    around.inflows notes node = around.inflows notes' node := by
  rcases node with ⟨info, shape⟩
  have target (part : Node) (inside : part ∈ shape.children) :
      around.flowDecl? notes part = around.flowDecl? notes' part := by
    unfold flowDecl?
    rw [same part inside]
  unfold inflows
  cases shape with
  | assign isSet part value => simp only [Node.shape, target part (by simp [Shape.children])]
  | forRange part first last step body =>
    simp only [Node.shape, target part (by simp [Shape.children])]
  | forEach part collection body => simp only [Node.shape, target part (by simp [Shape.children])]
  | redim preserve part bounds => simp only [Node.shape, target part (by simp [Shape.children])]
  | call parens callee args =>
    simp only [Node.shape, argumentFlows]
    rw [same callee (show callee ∈ callee :: args from List.mem_cons_self)]
  | _ => rfl

theorem isDeferred_of_followed? {notes : Notes} {id : NodeId} {found : Descriptor}
    (read : around.followed? notes id = some found) : found.isDeferred = false := by
  obtain ⟨type, _, leads⟩ := Option.bind_eq_some_iff.1 read
  exact Descriptor.isDeferred_of_follow leads

theorem inflow?_of_followed {notes : Notes} {flow : Inflow} {value : Node} {incoming : Descriptor}
    (free : around.declared[flow.decl]? = none) (source : flow.source = .node value)
    (read : around.followed? notes value.id = some incoming) :
    around.inflow? notes flow = match notes.descriptor? flow.decl with
      | some old => some (old.merge (around.lookup notes) incoming)
      | none => if incoming == .missing then none else some incoming := by
  obtain ⟨type, isType, leads⟩ := Option.bind_eq_some_iff.1 read
  have undeclared : around.declared.contains flow.decl = false := by
    rw [Std.HashMap.contains_eq_isSome_getElem?, free]
    rfl
  cases known : notes.descriptor? flow.decl <;>
    simp only [inflow?, source, sourceType?, isType, Option.bind_some, flowed?, undeclared, leads,
      known, Bool.false_eq_true, if_false]

end Surroundings

namespace ResolutionState.Fits

variable {around : Surroundings} {roles : NodeId → Role} {state : ResolutionState} {bound : Nat}

theorem pour_absorbs (fits : state.Fits around roles) {flow : Inflow} {value : Node}
    {incoming current : Descriptor} (plain : Role.Plain roles state.fresh flow.decl)
    (free : around.declared[flow.decl]? = none) (source : flow.source = .node value)
    (read : around.followed? state.notes value.id = some incoming)
    (noted : (around.pour state flow).notes.descriptor? flow.decl = some current) :
    current.Absorbs incoming := by
  have known := around.isDeferred_of_followed? read
  have taken := Surroundings.inflow?_of_followed free source read
  unfold Surroundings.pour at noted
  rw [taken] at noted
  cases before : state.notes.descriptor? flow.decl with
  | none =>
    rw [before] at noted
    dsimp only at noted
    split at noted
    · rename_i isMissing
      cases incoming with
      | missing => exact current.absorbs_missing
      | _ => exact nomatch isMissing
    · rw [Option.elim_some] at noted
      rcases state.describe_cases flow.decl incoming with ⟨same, _⟩ | ⟨_, new⟩
      · rw [before] at same
        exact nomatch same
      · rw [new] at noted
        simp only [Notes.descriptor?_describe, if_true] at noted
        exact Option.some.inj noted ▸ incoming.absorbs_self
  | some old =>
    have oldKnown := fits.known before (by rw [plain.role]; decide)
    rw [before] at noted
    dsimp only at noted
    rw [Descriptor.merge_eq_join _ oldKnown known, Option.elim_some] at noted
    rcases state.describe_cases flow.decl (old.join incoming) with ⟨same, kept⟩ | ⟨_, new⟩
    · rw [kept, before] at noted
      rw [before] at same
      exact Option.some.inj noted ▸ Descriptor.absorbs_of_beq same
    · rw [new] at noted
      simp only [Notes.descriptor?_describe, if_true] at noted
      exact Option.some.inj noted ▸ Descriptor.join_absorbs old incoming

theorem eq_missing_of_pour {flow : Inflow} {value : Node} {incoming : Descriptor}
    (free : around.declared[flow.decl]? = none) (source : flow.source = .node value)
    (read : around.followed? state.notes value.id = some incoming)
    (unknown : (around.pour state flow).notes.descriptor? flow.decl = none) :
    incoming = .missing := by
  have taken := Surroundings.inflow?_of_followed free source read
  unfold Surroundings.pour at unknown
  rw [taken] at unknown
  have noted (descriptor : Descriptor) :
      ((state.describe flow.decl descriptor).notes.descriptor? flow.decl).isSome :=
    state.isSome_describe flow.decl descriptor
  cases before : state.notes.descriptor? flow.decl with
  | none =>
    rw [before] at unknown
    dsimp only at unknown
    split at unknown
    · rename_i isMissing
      cases incoming with
      | missing => rfl
      | _ => exact nomatch isMissing
    · have absurd := noted incoming
      rw [Option.elim_some] at unknown
      rw [unknown] at absurd
      exact nomatch absurd
  | some old =>
    rw [before] at unknown
    have absurd := noted (old.merge (around.lookup state.notes) incoming)
    dsimp only [Option.elim_some] at unknown
    rw [unknown] at absurd
    exact nomatch absurd

theorem pourAll_evolves (fits : state.Fits around roles) (static : around.Fits roles bound)
    (flows : List Inflow) (plain : ∀ flow ∈ flows, Role.Plain roles state.fresh flow.decl) :
    (flows.foldl around.pour state).Fits around roles ∧
      state.Evolves roles (fun _ => False) (flows.foldl around.pour state) := by
  have touches (place : Place) : Touches around roles (fun _ => True) place state
      (flows.foldl around.pour state) := Touches.pourAll static fits flows plain
  exact ⟨(touches ⟨.made ⟨0⟩ 0 .missing, []⟩).fits static fits, Touches.elsewhere touches⟩

theorem fill_evolves (fits : state.Fits around roles) {node : Node}
    (inside : node ∈ state.root.descendants) (final : Bool) :
    state.Evolves roles (fun _ => False) (Surroundings.fill final node state) := by
  have touches (place : Place) : Touches around roles (fun _ => True) place state
      (Surroundings.fill final node state) := Touches.fillNode fits inside final
  exact Touches.elsewhere touches

/-- From the moment of a flow on, neither what is read at the place is visited again nor the place
itself. -/
theorem taken (fits : state.Fits around roles) (static : around.Fits roles bound)
    (older : bound ≤ state.fresh) {place : Place} {flow : Inflow} {moment : ResolutionState}
    (taken : around.TakenAt state place flow moment) :
    moment.Fits around roles ∧ Role.Plain roles moment.fresh flow.decl ∧
      ∃ visited : NodeId → Prop, (∀ id ∈ place.reads, ¬ visited id) ∧
        moment.Evolves roles visited (around.pour moment flow) ∧
        (around.pour moment flow).Evolves roles visited
          (around.walk true state.root.placesUp state) := by
  obtain ⟨before, later, earlier, rest, split, flows, rfl⟩ := taken
  obtain ⟨visited, _, unread, further⟩ := fits.walk_split true static older split
  have listed : ∀ other ∈ before ++ place :: later, other ∈ state.root.placesUp :=
    fun _ among => split ▸ among
  obtain ⟨beforeFits, walked⟩ := fits.walk true static older
    fun other among => listed other (List.mem_append_left _ among)
  have here : place ∈ (around.walk true before state).root.placesUp := by
    rw [walked.root]
    exact listed place (List.mem_append_right _ List.mem_cons_self)
  obtain ⟨judgedFits, judged⟩ := beforeFits.judge static here true
  rw [Surroundings.sweepNode_eq, flows] at further
  generalize around.judge true place (around.walk true before state) = middle at *
  have inside : place.node ∈ middle.root.descendants := by
    rw [judged.root]
    exact Node.node_mem_of_mem_placesUp here
  have plain : ∀ other ∈ earlier ++ flow :: rest, Role.Plain roles middle.fresh other.decl := by
    intro other among
    exact judgedFits.inflows_plain static
      (Nat.le_trans older (Nat.le_trans walked.fresh judged.fresh)) inside (flows ▸ among)
  obtain ⟨momentFits, first⟩ := judgedFits.pourAll_evolves static earlier
    fun other among => plain other (List.mem_append_left _ among)
  have plainHere := (plain flow (List.mem_append_right _ List.mem_cons_self)).mono first.fresh
  obtain ⟨pouredFits, second⟩ := momentFits.pourAll_evolves static [flow] (by simpa using plainHere)
  obtain ⟨restFits, third⟩ := pouredFits.pourAll_evolves static rest fun other among =>
    (plain other (List.mem_append_right _ (List.mem_cons_of_mem _ among))).mono
      (Nat.le_trans first.fresh second.fresh)
  have still : place.node ∈ (rest.foldl around.pour ([flow].foldl around.pour
      (earlier.foldl around.pour middle))).root.descendants := by
    rw [third.root, second.root, first.root]
    exact inside
  have last := restFits.fill_evolves still true
  rw [List.foldl_append, List.foldl_cons] at further
  have widen {state after : ResolutionState} (evolves : state.Evolves roles (fun _ => False) after) :
      state.Evolves roles visited after := evolves.mono fun _ absurd => absurd.elim
  exact ⟨momentFits, plainHere, visited, unread, widen second,
    (widen third).trans ((widen last).trans further)⟩

theorem exists_taken (fits : state.Fits around roles) (static : around.Fits roles bound)
    (older : bound ≤ state.fresh) {place : Place} (listed : place ∈ state.root.placesUp)
    {flow : Inflow} (flows : flow ∈ around.inflows
      (around.walk true state.root.placesUp state).notes place.node) :
    ∃ moment, around.TakenAt state place flow moment := by
  obtain ⟨before, later, split⟩ := List.append_of_mem listed
  obtain ⟨visited, _, unread, further⟩ := fits.walk_split true static older split
  have inside : ∀ other ∈ before, other ∈ state.root.placesUp :=
    fun _ among => split ▸ List.mem_append_left _ among
  obtain ⟨beforeFits, walked⟩ := fits.walk true static older inside
  have here : place ∈ (around.walk true before state).root.placesUp := by
    rw [walked.root]
    exact listed
  have poured := beforeFits.judge_evolves static (Nat.le_trans older walked.fresh) here true
  have same : around.inflows (around.walk true state.root.placesUp state).notes place.node =
      around.inflows (around.judge true place (around.walk true before state)).notes place.node :=
    Surroundings.inflows_congr fun part isPart =>
      (further.binding _ (unread _ (Place.part_mem_reads isPart))).trans
        (poured.binding _ fun absurd => absurd)
  rw [same] at flows
  obtain ⟨earlier, rest, parts⟩ := List.append_of_mem flows
  exact ⟨_, before, later, earlier, rest, split, parts, rfl⟩

theorem taken_cases (fits : state.Fits around roles) (static : around.Fits roles bound)
    (older : bound ≤ state.fresh) {place : Place} {flow : Inflow} {moment : ResolutionState}
    (taken : around.TakenAt state place flow moment) (free : around.declared[flow.decl]? = none)
    {value : Node} (source : flow.source = .node value) {read : Descriptor}
    (reads : around.followed? moment.notes value.id = some read) :
    read = .missing ∨ ∃ current, (around.walk true state.root.placesUp state).notes.descriptor?
      flow.decl = some current ∧ current.Absorbs read := by
  obtain ⟨momentFits, plain, visited, _, _, further⟩ := fits.taken static older taken
  cases poured : (around.pour moment flow).notes.descriptor? flow.decl with
  | some old =>
    obtain ⟨new, found, rises⟩ := further.rises flow.decl old plain.role poured
    have absorbs := momentFits.pour_absorbs plain free source reads poured
    exact .inr ⟨new, found, absorbs.mono rises⟩
  | none => exact .inl (eq_missing_of_pour free source reads poured)

end ResolutionState.Fits

def Inflow.mapUp (f : Node → Node) (flow : Inflow) : Inflow where
  decl := flow.decl
  source := match flow.source with
    | .node value => .node (value.mapUp f)
    | .element collection => .element (collection.mapUp f)
    | .array rank => .array rank

namespace Surroundings

variable {around : Surroundings} {notes : Notes}

structure LeavesFlows (around : Surroundings) (notes : Notes) (f : Node → Node) : Prop where
  id : ∀ node, (f node).id = node.id
  fixes : ∀ node, node.shape.family = .expression → f node = node
  family : ∀ node, (f node).shape.family = node.shape.family
  flows : ∀ node, around.inflows notes (f node) = around.inflows notes node

theorem family_of_isMissing {node : Node} (omitted : isMissing node) :
    node.shape.family = .expression := by
  unfold isMissing at omitted
  split at omitted
  · rename_i shape
    rw [shape]
    rfl
  · exact nomatch omitted

theorem isMissing_mapUp {f : Node → Node}
    (fixes : ∀ node, node.shape.family = .expression → f node = node)
    (family : ∀ node, (f node).shape.family = node.shape.family) (node : Node) :
    isMissing (node.mapUp f) = isMissing node := by
  by_cases expression : node.shape.family = .expression
  · have shape : (node.mapUp f).shape = node.shape.mapParts fun part _ => part.mapUp f := by
      rw [Node.mapUp_eq, fixes _ (by rwa [Node.family_rebuilt])]
      rfl
    unfold isMissing
    rw [shape]
    cases node.shape with
    | loop test body => cases test <;> rfl
    | _ => rfl
  · have other {node : Node} (differs : node.shape.family ≠ .expression) :
        isMissing node = false :=
      Bool.eq_false_iff.2 fun omitted => differs (family_of_isMissing omitted)
    rw [other expression, other]
    rwa [Node.mapUp_eq, family, Node.family_rebuilt]

theorem inflows_mapUp {f : Node → Node} (leaves : around.LeavesFlows notes f) (node : Node) :
    around.inflows notes (node.mapUp f) = (around.inflows notes node).map (Inflow.mapUp f) := by
  have sameId (part : Node) : (part.mapUp f).id = part.id := by
    rw [Node.mapUp_eq, leaves.id, Node.id_rebuilt]
  have target (part : Node) : around.flowDecl? notes (part.mapUp f) =
      around.flowDecl? notes part := by
    unfold flowDecl?
    rw [sameId]
  rw [Node.mapUp_eq, leaves.flows]
  rcases node with ⟨info, shape⟩
  unfold inflows
  cases shape with
  | field decl | localVar decl =>
    simp only [Node.rebuilt, Node.withParts, Node.withShape, Node.shape, Shape.mapParts, Shape.mapVar]
    cases decl.init <;> rfl
  | param decl =>
    rcases decl with ⟨name, passing, marks, typeName, default⟩
    cases default <;> rfl
  | assign isSet part value =>
    simp only [Node.rebuilt, Node.withParts, Node.withShape, Node.shape, Shape.mapParts, target, List.map_map]
    rfl
  | forRange part first last step body =>
    simp only [Node.rebuilt, Node.withParts, Node.withShape, Node.shape, Shape.mapParts, target]
    cases around.flowDecl? notes part <;> rfl
  | forEach part collection body =>
    simp only [Node.rebuilt, Node.withParts, Node.withShape, Node.shape, Shape.mapParts, target, List.map_map]
    rfl
  | redim preserve part bounds =>
    simp only [Node.rebuilt, Node.withParts, Node.withShape, Node.shape, Shape.mapParts, target, List.map_map,
      List.length_map, List.length_attach]
    rfl
  | call parens callee args =>
    have each (params : List Node) :
        (((plainParams params).zip (args.map (Node.mapUp f))).filter (!isMissing ·.2)).map
            (fun pair => (⟨pair.1.id, .node pair.2⟩ : Inflow)) =
          ((((plainParams params).zip args).filter (!isMissing ·.2)).map
            fun pair => (⟨pair.1.id, .node pair.2⟩ : Inflow)).map (Inflow.mapUp f) := by
      rw [List.zip_map_right, List.filter_map, List.map_map, List.map_map]
      simp only [Function.comp_def, Prod.map_snd, isMissing_mapUp leaves.fixes leaves.family]
      rfl
    have mapped : ((Node.mk info (.call parens callee args)).rebuilt f).shape =
        .call parens (callee.mapUp f) (args.map (Node.mapUp f)) := by
      simp [Node.rebuilt, Node.withParts, Node.withShape, Node.shape, Shape.mapParts]
    rw [mapped]
    simp only [Node.shape]
    unfold argumentFlows
    rw [sameId]
    cases notes.binding? callee.id with
    | none => rfl
    | some binding =>
      cases binding with
      | member decl | outer decl =>
        dsimp only
        split
        · cases around.nodes[decl.node]?.bind Node.methodDecl? with
          | none => rfl
          | some method => exact each method.params
        · rfl
      | _ => rfl
  | loop test body => cases test <;> rfl
  | _ => rfl

theorem value_mem_children {node value : Node} {flow : Inflow}
    (flows : flow ∈ around.inflows notes node) (source : flow.source = .node value) :
    value ∈ node.children := by
  rcases node with ⟨info, shape⟩
  unfold inflows at flows
  cases shape with
  | field decl | localVar decl =>
    obtain ⟨other, isInit, rfl⟩ := List.mem_map.1 flows
    obtain rfl := FlowSource.node.inj source
    exact List.mem_append_right _ isInit
  | param decl =>
    obtain ⟨other, isDefault, rfl⟩ := List.mem_map.1 flows
    obtain rfl := FlowSource.node.inj source
    exact isDefault
  | assign isSet part other =>
    obtain ⟨decl, _, rfl⟩ := List.mem_map.1 flows
    obtain rfl := FlowSource.node.inj source
    exact List.mem_cons_of_mem _ List.mem_cons_self
  | forRange part first last step body =>
    obtain ⟨decl, _, listed⟩ := List.mem_flatMap.1 flows
    rcases List.mem_cons.1 listed with rfl | listed
    · obtain rfl := FlowSource.node.inj source
      exact List.mem_cons_of_mem _ List.mem_cons_self
    · obtain rfl := List.mem_singleton.1 listed
      obtain rfl := FlowSource.node.inj source
      exact List.mem_cons_of_mem _ (List.mem_cons_of_mem _ List.mem_cons_self)
  | forEach part collection body =>
    obtain ⟨decl, _, rfl⟩ := List.mem_map.1 flows
    cases source
  | redim preserve part bounds =>
    obtain ⟨decl, _, rfl⟩ := List.mem_map.1 flows
    cases source
  | call parens callee args =>
    obtain ⟨decl, method, param, arg, _, paired, rfl⟩ := around.argumentFlows_cases flows
    obtain rfl := FlowSource.node.inj source
    exact List.mem_cons_of_mem _ (List.of_mem_zip paired).2
  | _ => cases flows

end Surroundings

section Settled

variable {around : Surroundings} {roles : NodeId → Role} {state : ResolutionState} {bound : Nat}
  {notes : Notes} {draft : Draft}

namespace Surroundings

theorem declareIn_leavesFlows (implicit : List ImplicitLocal) :
    around.LeavesFlows notes (ResolutionState.declareIn implicit) := by
  refine ⟨ResolutionState.id_declareIn, fun node family => ?_, ResolutionState.family_declareIn,
    fun node => ?_⟩
  · exact ResolutionState.declareIn_of_family (by rw [family]; decide)
  · by_cases isBlock : node.shape.family = .block
    · obtain ⟨stmts, shape⟩ := (Shape.family_eq_block_iff _).1 isBlock
      unfold inflows
      rw [(ResolutionState.declareIn_block shape).2, shape]
    · rw [ResolutionState.declareIn_of_family isBlock]

theorem apply_leavesFlows (obligations : Std.HashSet Obligation) :
    around.LeavesFlows notes (Obligation.apply obligations) := by
  have adds := Obligation.apply_adds obligations
  refine ⟨adds.id, fun _ family => Obligation.apply_of_expression _ family, adds.family,
    fun node => ?_⟩
  rcases node with ⟨info, shape⟩
  cases shape with
  | field | method | property =>
    unfold Obligation.apply
    dsimp only [Node.shape]
    split <;> rfl
  | _ => rfl

theorem withVisibility_leavesFlows : around.LeavesFlows notes Node.withVisibility := by
  have adds := Node.withVisibility_adds
  refine ⟨adds.id, fun _ family => Node.withVisibility_of_expression family, adds.family,
    fun node => ?_⟩
  rcases node with ⟨info, shape⟩
  cases shape with
  | type | field | method | property =>
    unfold Node.withVisibility
    dsimp only [Node.shape]
    split <;> rfl
  | _ => rfl

theorem payFields_leavesFlows : around.LeavesFlows notes (around.payFields draft) := by
  have adds : Node.Adds (around.payFields draft) _ := payFields_adds
  refine ⟨adds.id, fun _ family => payFields_of_family (by rw [family]; decide), adds.family,
    fun node => ?_⟩
  by_cases isType : node.shape.family = .type
  · rcases node with ⟨info, shape⟩
    cases shape with
    | type => rfl
    | _ => exact nomatch isType
  · rw [payFields_of_family isType]

theorem exists_inflow_of_mapUp {f : Node → Node} (leaves : around.LeavesFlows notes f)
    {node value : Node} {flow : Inflow} (flows : flow ∈ around.inflows notes (node.mapUp f))
    (source : flow.source = .node value) :
    ∃ flow' ∈ around.inflows notes node, ∃ value', flow'.decl = flow.decl ∧
      flow'.source = .node value' ∧ value = value'.mapUp f := by
  rw [inflows_mapUp leaves] at flows
  obtain ⟨⟨decl, origin⟩, listed, rfl⟩ := List.mem_map.1 flows
  cases origin with
  | node value' => exact ⟨_, listed, value', rfl, rfl, (FlowSource.node.inj source).symm⟩
  | element | array => exact nomatch source

end Surroundings

namespace ResolutionState.Fits

theorem exists_inflow_of_sweep (fits : state.Fits around roles) (static : around.Fits roles bound)
    (older : bound ≤ state.fresh) {node value : Node} {flow : Inflow}
    (inside : node ∈ (around.sweep true state).root.descendants)
    (flows : flow ∈ around.inflows notes node) (source : flow.source = .node value) :
    ∃ place ∈ state.root.placesUp, place.node.id = node.id ∧
      ∃ flow' ∈ around.inflows notes place.node, ∃ value', flow'.decl = flow.decl ∧
        flow'.source = .node value' ∧ value'.Traces value := by
  obtain ⟨implicit, root, locals⟩ := fits.root_sweep true static older
  have adds := declareIn_adds fun entry among => (locals entry among).1
  rw [root] at inside
  obtain ⟨old, lies, rfl | leaf⟩ := adds.mem_descendants_mapUp.1 inside
  · obtain ⟨place, listed, rfl⟩ := Node.exists_mem_placesUp lies
    have leaves : around.LeavesFlows notes (declareIn implicit) :=
      Surroundings.declareIn_leavesFlows implicit
    obtain ⟨flow', among, value', decl, source', rfl⟩ :=
      Surroundings.exists_inflow_of_mapUp leaves flows source
    refine ⟨place, listed, (adds.id_mapUp _).symm, flow', among, value', decl, source', ?_⟩
    exact (adds.traces_mapUp leaves.fixes value').symm
  · have absurd := Surroundings.value_mem_children flows source
    rw [adds.bare _ _ leaf] at absurd
    exact nomatch absurd

theorem exists_inflow_of_settle (fits : state.Fits around roles) (knows : around.KnowsOuter)
    {node value : Node} {flow : Inflow}
    (inside : node ∈ (around.settle draft state).root.descendants)
    (flows : flow ∈ around.inflows (around.settle draft state).notes node)
    (source : flow.source = .node value) :
    ∃ old ∈ state.root.descendants, old.id = node.id ∧
      ∃ flow' ∈ around.inflows state.notes old, ∃ value', flow'.decl = flow.decl ∧
        flow'.source = .node value' ∧ value'.Traces value := by
  rw [Surroundings.root_settle] at inside
  obtain ⟨paid, lies, rfl | leaf⟩ := Node.withVisibility_adds.mem_descendants_mapUp.1 inside
  case inr => exact nomatch leaf
  obtain ⟨first, flows, value₁, firstDecl, firstSource, rfl⟩ :=
    Surroundings.exists_inflow_of_mapUp Surroundings.withVisibility_leavesFlows flows source
  have paying : Node.Adds (around.payFields (around.undeferred draft state)) _ :=
    Surroundings.payFields_adds
  obtain ⟨marked, below, rfl | leaf⟩ := paying.mem_descendants_mapUp.1 lies
  case inr =>
    have absurd := Surroundings.value_mem_children flows firstSource
    rw [paying.bare _ _ leaf] at absurd
    exact nomatch absurd
  obtain ⟨second, flows, value₂, secondDecl, secondSource, rfl⟩ :=
    Surroundings.exists_inflow_of_mapUp Surroundings.payFields_leavesFlows flows firstSource
  have marking := Obligation.apply_adds state.obligations
  obtain ⟨old, origin, rfl | leaf⟩ := marking.mem_descendants_mapUp.1 below
  case inr => exact nomatch leaf
  obtain ⟨third, flows, value₃, thirdDecl, thirdSource, rfl⟩ :=
    Surroundings.exists_inflow_of_mapUp (Surroundings.apply_leavesFlows _) flows secondSource
  rw [Surroundings.inflows_congr fun part isPart => (Surroundings.notes_settle_old draft knows
    (fits.tree.small part (Node.mem_descendants_trans (Node.child_mem_descendants isPart)
      origin))).2.1] at flows
  refine ⟨old, origin, ?_, third, flows, value₃, thirdDecl.trans (secondDecl.trans firstDecl),
    thirdSource, ?_⟩
  · rw [Node.withVisibility_adds.id_mapUp, paying.id_mapUp, marking.id_mapUp]
  · have first := Node.withVisibility_adds.traces_mapUp
      (fun _ family => Node.withVisibility_of_expression family)
      ((value₃.mapUp (Obligation.apply state.obligations)).mapUp
        (around.payFields (around.undeferred draft state)))
    have second := paying.traces_mapUp
      (fun _ family => Surroundings.payFields_of_family (by rw [family]; decide))
      (value₃.mapUp (Obligation.apply state.obligations))
    have third := marking.traces_mapUp
      (fun _ family => Obligation.apply_of_expression _ family) value₃
    exact (first.trans (second.trans third)).symm

end ResolutionState.Fits

namespace Surroundings

/-- A value that refers to a declaration is overtaken when, since the moment at which it flowed, that
declaration has risen, or when it is not known what the value stands for. -/
def Overtaken (around : Surroundings) (moment last : Notes) (value : NodeId) : Prop :=
  (last.descriptor? value).any (·.isDeferred) ∧
    ∀ type, around.followed? moment value = some type →
      around.followed? last value = some type → type = .missing

theorem concrete_absorbs {descriptor incoming : Descriptor} (isDeclaration : Bool)
    (known : descriptor.isDeferred = false) (absorbs : descriptor.Absorbs incoming) :
    (around.concrete notes isDeclaration descriptor).Absorbs incoming := by
  cases descriptor with
  | type | form => exact absorbs
  | deferred => exact nomatch known
  | null | missing =>
    cases isDeclaration with
    | true => exact Descriptor.object_absorbs incoming
    | false => exact absorbs

theorem concrete_of_steady {moment last : Notes} {id : NodeId} {descriptor : Descriptor}
    (noted : last.descriptor? id = some descriptor)
    (kept : moment.descriptor? id = last.descriptor? id)
    (steady : ¬ around.Overtaken moment last id) :
    around.followed? moment id = some (around.concrete last false descriptor) := by
  cases isDeferred : descriptor.isDeferred with
  | false =>
    have same : around.concrete last false descriptor = descriptor := by
      cases descriptor with
      | deferred => exact nomatch isDeferred
      | _ => rfl
    rw [same, followed?, kept, noted, Option.bind_some, Descriptor.follow_of_known isDeferred]
  | true =>
    have deferred : (last.descriptor? id).any (·.isDeferred) := by
      rw [noted]
      exact isDeferred
    simp only [Overtaken, deferred, true_and, not_forall] at steady
    obtain ⟨type, atMoment, atLast, known⟩ := steady
    rw [atMoment]
    rw [followed?, noted, Option.bind_some] at atLast
    cases descriptor with
    | deferred decl =>
      dsimp only [concrete]
      rw [atLast]
      cases type with
      | missing => exact absurd rfl known
      | _ => rfl
    | _ => exact nomatch isDeferred

end Surroundings

namespace ResolutionState.Fits

theorem settle_expression (fits : state.Fits around roles) (draft : Draft)
    (knows : around.KnowsOuter) {value : Node} (inside : value ∈ state.root.descendants)
    (expression : value.shape.isExpression) :
    (around.settle draft state).notes.descriptor? value.id =
      (state.notes.descriptor? value.id).map (around.concrete state.notes false) := by
  have adds := Obligation.apply_adds state.obligations
  have marked : value.mapUp (Obligation.apply state.obligations) ∈
      (around.undeferred draft state).root.descendants :=
    adds.mem_descendants_mapUp.2 ⟨value, inside, .inl rfl⟩
  have found := Draft.nodesById_of_mem (adds.distinct_of_none fits.tree.distinct) marked
  rw [adds.id_mapUp] at found
  have family : (value.mapUp (Obligation.apply state.obligations)).shape.family = .expression := by
    rw [adds.family_mapUp]
    exact (Shape.isExpression_iff _).1 expression
  have undeclared : (value.mapUp (Obligation.apply state.obligations)).shape.isDeclaration =
      false := by
    cases shape : (value.mapUp (Obligation.apply state.obligations)).shape with
    | type | field | method | property | param | localVar =>
      rw [shape] at family
      exact nomatch family
    | _ => rfl
  rw [(Surroundings.notes_settle_old draft knows (fits.tree.small value inside)).1, found,
    Option.any_some, undeclared]

/-- What a declaration without a declared type has absorbed by the end of the last sweep it absorbs
when the script is resolved. -/
theorem settle_declaration (fits : state.Fits around roles) (draft : Draft)
    (knows : around.KnowsOuter) {decl : NodeId} (plain : Role.Plain roles state.fresh decl)
    {current incoming : Descriptor} (noted : state.notes.descriptor? decl = some current)
    (absorbs : current.Absorbs incoming) (incomingKnown : incoming.isDeferred = false) :
    ∃ settled, (around.settle draft state).notes.descriptor? decl = some settled ∧
      ∀ lookup, settled.merge lookup incoming = settled := by
  have known := fits.known noted (by rw [plain.role]; decide)
  rw [(Surroundings.notes_settle_old draft knows plain.small).1, noted]
  refine ⟨_, rfl, fun lookup => ?_⟩
  rw [Descriptor.merge_eq_join lookup (Surroundings.concrete_known _ _) incomingKnown]
  exact Surroundings.concrete_absorbs _ known absorbs

end ResolutionState.Fits

/-- Something is known of a declaration, and merging the given type into it changes nothing. An
argument that is left out never changes anything. -/
def Notes.Holds (notes : Notes) (decl : NodeId) (incoming : Descriptor) : Prop :=
  incoming = .missing ∨ ∃ current, notes.descriptor? decl = some current ∧
    ∀ lookup, current.merge lookup incoming = current

/-- When a script is resolved, every declaration without a declared type holds what flowed into it at
the moment when it flowed for the last time, and that is what the value stands for in the end unless
the value was overtaken. -/
theorem ResolutionState.Fits.settle_holds (fits : state.Fits around roles)
    (static : around.Fits roles bound) (older : bound ≤ state.fresh) (knows : around.KnowsOuter)
    {node value : Node} {flow : Inflow}
    (inside : node ∈ (around.settle draft (around.sweep true state)).root.descendants)
    (flows : flow ∈ around.inflows (around.settle draft (around.sweep true state)).notes node)
    (source : flow.source = .node value) (expression : value.shape.isExpression)
    (free : around.declared[flow.decl]? = none) :
    ∃ place taken moment, place.node.id = node.id ∧ taken.decl = flow.decl ∧
      around.TakenAt { state with changed := false } place taken moment ∧
      (∀ read, around.followed? moment.notes value.id = some read →
        (around.settle draft (around.sweep true state)).notes.Holds flow.decl read) ∧
      ∃ incoming, (around.settle draft (around.sweep true state)).notes.descriptor? value.id =
          some incoming ∧
        (¬ around.Overtaken moment.notes (around.sweep true state).notes value.id →
          around.followed? moment.notes value.id = some incoming) := by
  have lastFits := fits.sweep true static older
  have started := fits.record state.cache state.warnings state.obligations false
  obtain ⟨old, lies, sameNode, flow₁, flows₁, value₁, decl₁, source₁, traces₁⟩ :=
    lastFits.exists_inflow_of_settle knows inside flows source
  obtain ⟨place, listed, samePlace, flow₂, flows₂, value₂, decl₂, source₂, traces₂⟩ :=
    fits.exists_inflow_of_sweep static older lies flows₁ source₁
  have sameNotes : (around.sweep true state).notes =
      (around.walk true state.root.placesUp { state with changed := false }).notes :=
    notes_settleImplicit _
  have decl := decl₂.trans decl₁
  have traces := traces₂.trans traces₁
  obtain ⟨moment, taken⟩ := started.exists_taken static older listed (sameNotes ▸ flows₂)
  obtain ⟨_, plain, visited, unread, first, second⟩ := started.taken static older taken
  have isExpression : value₁.shape.isExpression := by
    rw [Shape.isExpression_iff, traces₁.family]
    exact (Shape.isExpression_iff _).1 expression
  have valueInside : value₁ ∈ (around.sweep true state).root.descendants :=
    Node.mem_descendants_trans (Node.child_mem_descendants
      (Surroundings.value_mem_children flows₁ source₁)) lies
  have role : roles value.id ≠ .other := by
    rw [← traces₁.id, lastFits.tree.role _ valueInside, (Shape.isExpression_iff _).1 isExpression]
    decide
  have kept : moment.notes.descriptor? value.id =
      (around.sweep true state).notes.descriptor? value.id := by
    have readHere : value.id ∈ place.reads := by
      rw [← traces.id]
      exact Place.part_mem_reads (Surroundings.value_mem_children flows₂ source₂)
    rw [sameNotes, second.descriptor _ (unread _ readHere) role,
      first.descriptor _ (unread _ readHere) role]
  have plainLast : Role.Plain roles (around.sweep true state).fresh flow.decl := by
    have settledFlows := lastFits.inflows_plain static
      (Nat.le_trans older (fits.sweep_fresh_le true static older)) lies flows₁
    rwa [decl₁] at settledFlows
  refine ⟨place, flow₂, moment, samePlace.trans sameNode, decl, taken, fun read reads => ?_, ?_⟩
  · rw [← traces.id] at reads
    rcases started.taken_cases static older taken (decl ▸ free) source₂ reads with
      isMissing | ⟨current, noted, absorbs⟩
    · exact .inl isMissing
    · rw [← sameNotes, decl] at noted
      exact .inr (lastFits.settle_declaration draft knows plainLast noted absorbs
        (around.isDeferred_of_followed? reads))
  · have decides := fits.sweep_decides static older valueInside isExpression
    obtain ⟨descriptor, noted⟩ := Option.isSome_iff_exists.1 decides.descriptor
    have settled := lastFits.settle_expression draft knows valueInside isExpression
    rw [noted] at settled
    rw [traces₁.id] at settled noted
    exact ⟨_, settled, Surroundings.concrete_of_steady noted kept⟩

end Settled

end ScriptMigration
