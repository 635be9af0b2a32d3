import ScriptMigration.Proofs.Resolution.References
import ScriptMigration.Proofs.Resolution.Settling

/-! What is noted refers to declarations throughout a resolution. A name is bound to what can be seen
where it stands, or to a variable that is declared for it and put into its procedure when the sweep
ends; and the types that flow into declarations name no type that was not named before. -/
namespace ScriptMigration

theorem Notes.Names.describe {notes : Notes} {kinds : DeclKinds} {descriptor : Descriptor}
    (names : notes.Names kinds) (id : NodeId) (known : descriptor.Names kinds.isType) :
    (notes.describe id descriptor).Names kinds := by
  intro other found noted
  rw [Notes.descriptor?_describe] at noted
  split at noted
  · exact Option.some.inj noted ▸ known
  · exact names other found noted

namespace ResolutionState

variable (state : ResolutionState)

def Pending (id method : NodeId) : Prop :=
  ∃ entry ∈ state.implicit, entry.decl.id = id ∧ ∃ setting block, state.root.Stands setting block ∧
    block.id = entry.block ∧ block.shape.family = .block ∧ setting.method = some method

/-- The procedure has such a declaration, or will have it when the sweep ends. -/
def Declares (family : Shape.Family) (id method : NodeId) : Prop :=
  state.root.Declares family id method ∨ family = .localVar ∧ state.Pending id method

/-- Nothing is changed but what is noted or reported. -/
structure Frames (state after : ResolutionState) : Prop where
  root : after.root = state.root
  bodies : after.bodies = state.bodies
  implicit : after.implicit = state.implicit

theorem stands_mapUp_declareIn {implicit : List ImplicitLocal} {root block : Node}
    (bare : ∀ entry ∈ implicit, entry.decl.children = []) (nested : root.Nested)
    {entry : ImplicitLocal} (listed : entry ∈ implicit) {setting : Setting}
    (stands : root.Stands setting block) (here : block.id = entry.block)
    (isBlock : block.shape.family = .block) :
    ∃ within, (root.mapUp (declareIn implicit)).Stands within entry.decl ∧
      within.method = setting.method := by
  have carries := (declareIn_adds bare).alters.carries root
  obtain ⟨_, stands', isCarried⟩ := carries.stays
    (Node.Alters.carried_root (declareIn implicit) root) nested stands (by rw [isBlock]; decide)
  have family := carries.family isCarried
  obtain ⟨_, rfl⟩ := isCarried
  exact ⟨_, stands'.part (mem_children_mapUp_declareIn bare listed here isBlock),
    Node.method_setting_of_inner (by rw [family, isBlock]; rfl) setting⟩

namespace Frames

variable {state after last : ResolutionState}

theorem trans (first : state.Frames after) (second : after.Frames last) : state.Frames last :=
  ⟨second.root.trans first.root, second.bodies.trans first.bodies,
    second.implicit.trans first.implicit⟩

theorem declares (frames : state.Frames after) : after.Declares = state.Declares := by
  unfold Declares Pending
  rw [frames.root, frames.implicit]

end Frames

theorem describe_frames (id : NodeId) (descriptor : Descriptor) :
    state.Frames (state.describe id descriptor) := by
  rcases state.describe_cases id descriptor with ⟨_, same⟩ | ⟨_, noted⟩
  · rw [same]
    exact ⟨rfl, rfl, rfl⟩
  · rw [noted]
    exact ⟨rfl, rfl, rfl⟩

theorem decide_frames (id : NodeId) (mode : LogicalMode) :
    state.Frames (state.decide id mode) := by
  rcases state.decide_cases id mode with ⟨_, same⟩ | ⟨_, noted⟩
  · rw [same]
    exact ⟨rfl, rfl, rfl⟩
  · rw [noted]
    exact ⟨rfl, rfl, rfl⟩

theorem bind_frames (id : NodeId) (binding : Binding) : state.Frames (state.bind id binding) := by
  rcases state.bind_cases id binding with ⟨_, same⟩ | ⟨_, new⟩
  · rw [same]
    exact ⟨rfl, rfl, rfl⟩
  · rw [new]
    exact ⟨rfl, rfl, rfl⟩

theorem oblige_frames (owed : List Obligation) : state.Frames (owed.foldl .oblige state) := by
  rw [foldl_oblige]
  exact ⟨rfl, rfl, rfl⟩

theorem noteJudgement_frames (around : Surroundings) (place : Place) (typed : Judgement)
    (state : ResolutionState) : state.Frames (around.noteJudgement place typed state) :=
  around.noteJudgement_induction (motive := (state.Frames ·)) ⟨rfl, rfl, rfl⟩
    (fun mode before _ kept => kept.trans (before.decide_frames _ mode))
    (fun owed before kept => kept.trans (before.oblige_frames owed))
    (fun binding before _ kept => kept.trans (before.bind_frames _ binding))
    fun descriptor before _ kept => kept.trans (before.describe_frames _ descriptor)

/-- What is noted refers to what the batch declares, and to what is declared where it stands. -/
structure Referring (around : Surroundings) (kinds : DeclKinds) (roles : NodeId → Role) : Prop where
  layers : state.root.InLayers
  rooted : kinds.Rooted around.script state.root
  names : state.notes.Names kinds
  locals : ∀ {method : NodeId} {scope : LocalScope} {name : String} {id : NodeId},
    state.bodies[method]? = some scope → scope.local? name = some id →
      state.Declares .localVar id method
  params : ∀ {method : NodeId} {scope : LocalScope} {name : String} {id : NodeId},
    state.bodies[method]? = some scope → scope.param? name = some id →
      state.Declares .param id method
  bindings : ∀ {setting : Setting} {node : Node} {binding : Binding},
    state.root.Stands setting node → state.notes.binding? node.id = some binding →
      binding.Fits kinds around.script state.Declares setting.method
  bound : ∀ {id : NodeId} {binding : Binding}, state.notes.binding? id = some binding →
    roles id = .expression
  faithful : state.cache.Faithful around.symbols

end ResolutionState

namespace Surroundings

variable {around : Surroundings} {kinds : DeclKinds} {place : Place} {state : ResolutionState}

namespace Knows

variable {notes : Notes} (knows : around.Knows kinds) (names : notes.Names kinds)

include knows names

theorem sourceType? {source : FlowSource} {type : Descriptor}
    (found : around.sourceType? notes source = some type) : type.Names kinds.isType := by
  cases source with
  | node value => exact names _ _ found
  | element collection =>
    obtain ⟨whole, isWhole, rfl⟩ := Option.map_eq_some_iff.1 found
    exact (knows.followed? names whole isWhole).element
  | array rank =>
    obtain rfl := Option.some.inj found
    exact Descriptor.names_object.withRank rank

theorem inflow? {flow : Inflow} {descriptor : Descriptor}
    (found : around.inflow? notes flow = some descriptor) : descriptor.Names kinds.isType := by
  obtain ⟨type, isSource, flowed⟩ := Option.bind_eq_some_iff.1 found
  unfold flowed? at flowed
  split at flowed
  · exact nomatch flowed
  · obtain ⟨incoming, leads, new⟩ := Option.bind_eq_some_iff.1 flowed
    have arrives := knows.follow names (knows.sourceType? names isSource) leads
    split at new
    · rename_i current noted
      obtain rfl := Option.some.inj new
      exact (names _ _ noted).merge arrives (knows.lookup names)
    · split at new
      · exact nomatch new
      · obtain rfl := Option.some.inj new
        exact arrives

end Knows

end Surroundings

section Visit

variable {around : Surroundings} {kinds : DeclKinds} {roles : NodeId → Role} {place : Place}
  {state after : ResolutionState} {bound : Nat}

namespace ResolutionState.Referring

theorem record (referring : state.Referring around kinds roles) {cache : MemberMemo}
    (faithful : cache.Faithful around.symbols) (warnings : List String)
    (obligations : Std.HashSet Obligation) (changed : Bool) :
    { state with cache, warnings, obligations, changed }.Referring around kinds roles :=
  { referring with faithful }

theorem describe (referring : state.Referring around kinds roles) (id : NodeId)
    {descriptor : Descriptor} (known : descriptor.Names kinds.isType) :
    (state.describe id descriptor).Referring around kinds roles := by
  rcases state.describe_cases id descriptor with ⟨_, same⟩ | ⟨_, noted⟩
  · rwa [same]
  · rw [noted]
    exact { referring with names := referring.names.describe id known }

theorem decide (referring : state.Referring around kinds roles) (id : NodeId) (mode : LogicalMode) :
    (state.decide id mode).Referring around kinds roles := by
  rcases state.decide_cases id mode with ⟨_, same⟩ | ⟨_, noted⟩
  · rwa [same]
  · rw [noted]
    exact { referring with }

theorem oblige (referring : state.Referring around kinds roles) (obligations : List Obligation) :
    (obligations.foldl .oblige state).Referring around kinds roles := by
  rw [foldl_oblige]
  exact referring.record referring.faithful _ _ _

theorem bind (referring : state.Referring around kinds roles) (distinct : state.root.Distinct)
    (inside : place ∈ state.root.placesUp) (role : roles place.node.id = .expression)
    {binding : Binding} (refers : binding.Fits kinds around.script state.Declares
      place.setting.method) :
    (state.bind place.node.id binding).Referring around kinds roles := by
  rcases state.bind_cases place.node.id binding with ⟨_, same⟩ | ⟨_, noted⟩
  · rwa [same]
  · rw [noted]
    have here := Node.stands_of_place (Node.mem_places_iff.2 inside)
    refine { referring with bindings := ?_, bound := ?_ }
    · intro setting node other stands found
      rw [Notes.binding?_bind] at found
      split at found
      · rename_i isHere
        obtain rfl := Option.some.inj found
        rw [stands.unique distinct here isHere.symm]
        exact refers
      · exact referring.bindings stands found
    · intro id other found
      rw [Notes.binding?_bind] at found
      split at found
      · rename_i isHere
        exact isHere ▸ role
      · exact referring.bound found

/-- A variable that is declared for a name is put into the procedure around it. -/
theorem declare (referring : state.Referring around kinds roles)
    (inside : place ∈ state.root.placesUp) {name : String} {id : NodeId}
    (taken : state.declare place name = (some id, after)) :
    after.Referring around kinds roles ∧ after.root = state.root ∧
      ∃ owner ∈ place.setting.method, after.Declares .localVar id owner := by
  obtain ⟨method, decl, isMethod, isDecl, rfl, isAfter⟩ := declare_eq_some taken
  have listed := Node.around_subset inside (Place.isMethod_of_method? isMethod).1
  have shape := Node.shape_of_methodDecl? isDecl
  have new : after.Declares .localVar ⟨state.fresh⟩ method.id := by
    obtain ⟨setting, body, isBlock, owner⟩ := referring.layers.stands_body listed shape
    subst isAfter
    exact .inr ⟨rfl, _, List.mem_cons_self, rfl, setting, decl.body, body, rfl, isBlock, owner⟩
  have kept {family : Shape.Family} {other owner : NodeId}
      (known : state.Declares family other owner) : after.Declares family other owner := by
    subst isAfter
    refine known.imp id (And.imp id ?_)
    rintro ⟨entry, among, rest⟩
    exact ⟨entry, List.mem_cons_of_mem _ among, rest⟩
  have root : after.root = state.root := by rw [isAfter]
  have notes : after.notes = state.notes := by rw [isAfter]
  refine ⟨⟨root ▸ referring.layers, root ▸ referring.rooted, notes ▸ referring.names, ?_, ?_, ?_, ?_,
    ?_⟩, root, method.id, ?_, new⟩
  · intro owner scope other found body taken
    rw [isAfter] at body
    rcases (LocalScope.declared_cases body other found).1 taken with
      ⟨rfl, _, rfl⟩ | ⟨before, body, taken⟩
    · exact new
    · exact kept (referring.locals body taken)
  · intro owner scope other found body taken
    rw [isAfter] at body
    obtain ⟨before, body, taken⟩ := (LocalScope.declared_cases body other found).2 taken
    exact kept (referring.params body taken)
  · intro setting node binding stands noted
    rw [root] at stands
    rw [notes] at noted
    exact (referring.bindings stands noted).mono (.refl kinds) fun _ _ _ _ known => kept known
  · intro id binding noted
    rw [notes] at noted
    exact referring.bound noted
  · rw [isAfter]
    exact referring.faithful
  · rw [Place.setting, isMethod]
    rfl

theorem note (referring : state.Referring around kinds roles) (distinct : state.root.Distinct)
    (inside : place ∈ state.root.placesUp) (role : roles place.node.id = .expression)
    {typed : Judgement} (refers : typed.Refers kinds around.script state.Declares
      place.setting.method) :
    (around.noteJudgement place typed state).Referring around kinds roles := by
  -- a binding is looked for where it stood before, so the notes must leave the tree as it was
  have framed : state.Frames (around.noteJudgement place typed state) ∧
      (around.noteJudgement place typed state).Referring around kinds roles := by
    refine around.noteJudgement_induction (motive := fun after =>
      state.Frames after ∧ after.Referring around kinds roles) ⟨⟨rfl, rfl, rfl⟩, referring⟩
      (fun mode before _ kept => ?_) (fun owed before kept => ?_)
      (fun binding before found kept => ?_) fun descriptor before found kept => ?_
    · exact ⟨kept.1.trans (before.decide_frames _ mode), kept.2.decide _ mode⟩
    · exact ⟨kept.1.trans (before.oblige_frames owed), kept.2.oblige owed⟩
    · refine ⟨kept.1.trans (before.bind_frames _ binding), kept.2.bind ?_ ?_ role ?_⟩
      · rw [kept.1.root]
        exact distinct
      · rw [kept.1.root]
        exact inside
      · rw [kept.1.declares]
        exact refers.fits binding found
    · exact ⟨kept.1.trans (before.describe_frames _ descriptor),
        kept.2.describe _ (refers.names descriptor found)⟩
  exact framed.2

theorem judgeExpression (referring : state.Referring around kinds roles)
    (knows : around.Knows kinds) (fits : state.Fits around roles)
    (inside : place ∈ state.root.placesUp) (expression : place.node.shape.isExpression)
    (final : Bool) : (around.judgeExpression final place state).Referring around kinds roles := by
  have role := fits.role_expression inside expression
  have refers : (around.typed final state.notes state.bodies state.cache place).1.Refers kinds
      around.script state.Declares place.setting.method :=
    knows.typed_refers referring.names referring.locals referring.params referring.faithful
  have faithful := Surroundings.typed_faithful final state.notes state.bodies place
    referring.faithful
  have recorded : (around.recorded final place state).Referring around kinds roles :=
    referring.record faithful _ state.obligations state.changed
  rcases around.judgeExpression_cases final place state with same | ⟨_, id, after, taken, same⟩
  · rw [same]
    exact recorded.note fits.tree.distinct inside role refers
  · rw [same]
    obtain ⟨declared, root, new⟩ := recorded.declare inside taken
    refine declared.note (by rw [root]; exact fits.tree.distinct) (by rw [root]; exact inside) role
      (.ofBinding rfl new fun _ found => ?_)
    exact Option.some.inj found ▸ Descriptor.names_of_none rfl

theorem fill (referring : state.Referring around kinds roles) (final : Bool) (id : NodeId) :
    (Surroundings.defaultType final id state).Referring around kinds roles := by
  unfold Surroundings.defaultType
  split
  · exact referring.describe id Descriptor.names_object
  · exact referring

theorem sweepProperty (referring : state.Referring around kinds roles)
    (knows : around.Knows kinds) (final : Bool) (id : NodeId) (decl : PropertyDecl Node) :
    (around.sweepProperty final id decl state).Referring around kinds roles := by
  rw [Surroundings.sweepProperty_eq]
  split
  · rename_i type found
    obtain ⟨source, _, noted⟩ := Option.bind_eq_some_iff.1 found
    have known := referring.names _ _ noted
    refine referring.describe id ?_
    cases leads : type.follow (around.lookup state.notes) with
    | none => exact known
    | some last => exact knows.follow referring.names known leads
  · exact referring.fill final id

theorem pour (referring : state.Referring around kinds roles) (knows : around.Knows kinds)
    (flow : Inflow) : (around.pour state flow).Referring around kinds roles := by
  unfold Surroundings.pour
  cases found : around.inflow? state.notes flow with
  | none => exact referring
  | some descriptor => exact referring.describe _ (knows.inflow? referring.names found)

theorem pourAll (referring : state.Referring around kinds roles) (knows : around.Knows kinds)
    (flows : List Inflow) : (flows.foldl around.pour state).Referring around kinds roles := by
  induction flows generalizing state with
  | nil => exact referring
  | cons flow rest ih => exact ih (referring.pour knows flow)

theorem visit (referring : state.Referring around kinds roles) (knows : around.Knows kinds)
    (fits : state.Fits around roles) (inside : place ∈ state.root.placesUp) (final : Bool) :
    (around.sweepNode final state place).Referring around kinds roles := by
  have judged : (around.judge final place state).Referring around kinds roles := by
    unfold Surroundings.judge
    split
    · exact referring.sweepProperty knows final _ _
    · split
      · rename_i expression
        exact referring.judgeExpression knows fits inside expression final
      · exact referring
  rw [Surroundings.sweepNode_eq]
  have poured := judged.pourAll knows
    (around.inflows (around.judge final place state).notes place.node)
  unfold Surroundings.fill
  split
  case _ => exact poured.fill final _
  case _ => exact poured.fill final _
  case _ => exact poured.fill final _
  case _ => exact poured.fill final _
  case _ => exact poured

theorem walk (referring : state.Referring around kinds roles) (knows : around.Knows kinds)
    (fits : state.Fits around roles) (static : around.Fits roles bound)
    (older : bound ≤ state.fresh) (final : Bool) {places : List Place}
    (inside : ∀ place ∈ places, place ∈ state.root.placesUp) :
    (around.walk final places state).Referring around kinds roles := by
  refine fits.walk_induction final static older inside (motive := (·.Referring around kinds roles))
    referring ?_
  intro before place beforeFits _ sameRoot listed holds
  exact holds.visit knows beforeFits (sameRoot ▸ inside place listed) final

/-- The variables that were declared stand in their procedures when they are put into the tree. -/
theorem settleImplicit (referring : state.Referring around kinds roles)
    (fits : state.Fits around roles) : state.settleImplicit.Referring around kinds roles := by
  rw [settleImplicit_eq]
  have bare := fun entry listed => (fits.implicit entry listed).2.2.1
  have adds := declareIn_adds bare
  have carries := adds.alters.carries state.root
  have starts := Node.Alters.carried_root (declareIn state.implicit) state.root
  have nested := referring.layers.nested
  have kept {family : Shape.Family} {id owner : NodeId} (differs : family ≠ .expression)
      (known : state.Declares family id owner) :
      (state.root.mapUp (declareIn state.implicit)).Declares family id owner := by
    rcases known with old | ⟨rfl, entry, listed, rfl, setting, block, stands, isBody, isBlock,
      inMethod⟩
    · exact carries.declares starts nested differs old
    · obtain ⟨within, stands', same⟩ :=
        stands_mapUp_declareIn bare nested listed stands isBody isBlock
      exact ⟨within, entry.decl, stands', rfl, (fits.implicit entry listed).2.2.2,
        same.trans inMethod⟩
  refine { referring with
    layers := ?_, locals := ?_, params := ?_, bindings := ?_
    rooted := referring.rooted.carries carries starts nested }
  · refine referring.layers.mapUp adds fun node below found => ?_
    obtain ⟨entry, listed, rfl, _⟩ := mem_leavesOf found
    rw [family_of_mem_leavesOf found, (fits.implicit entry listed).2.2.2]
    rfl
  · exact fun body taken => .inl (kept (by decide) (referring.locals body taken))
  · exact fun body taken => .inl (kept (by decide) (referring.params body taken))
  · intro setting node binding stands noted
    rcases carries.origin starts stands with ⟨source, above, isCarried⟩ | ⟨_, _, _, found, _⟩
    · rw [carries.id isCarried] at noted
      exact (referring.bindings above noted).mono (.refl kinds)
        fun _ _ _ differs known => .inl (kept differs known)
    · obtain ⟨entry, listed, rfl, _⟩ := mem_leavesOf found
      have role := (fits.implicit entry listed).1.role
      rw [referring.bound noted] at role
      cases role

theorem sweep (referring : state.Referring around kinds roles) (knows : around.Knows kinds)
    (fits : state.Fits around roles) (static : around.Fits roles bound)
    (older : bound ≤ state.fresh) (final : Bool) :
    (around.sweep final state).Referring around kinds roles := by
  have started := referring.record referring.faithful state.warnings state.obligations false
  have startedFits := fits.record state.cache state.warnings state.obligations false
  exact (started.walk knows startedFits static older final fun _ listed => listed).settleImplicit
    (startedFits.walk final static older fun _ listed => listed).1

theorem sweeps (referring : state.Referring around kinds roles) (knows : around.Knows kinds)
    (underway : state.Underway around roles bound) (static : around.Fits roles bound)
    (attempts : Nat) : (around.sweeps attempts state).2.Referring around kinds roles :=
  underway.sweeps_induction static (motive := (·.Referring around kinds roles)) referring
    (fun underway referring => referring.sweep knows underway.fits static underway.older false)
    attempts

end ResolutionState.Referring

end Visit

end ScriptMigration
