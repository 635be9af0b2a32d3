import ScriptMigration.Proofs.Resolution.Grounded

/-! What the names in a procedure stand for. A name that stands for a variable or a parameter is spelled
like one of its procedure, and what stands for a value that is given back is a name in the function that
gives it back. So a name that no variable of a procedure has stands for nothing that is declared
there. -/
namespace ScriptMigration

def Node.variableName? (node : Node) : Option FoldedName :=
  match node.shape with
  | .localVar decl => some (.of decl.name)
  | .param decl => some (.of decl.name)
  | _ => none

def Node.HasVariable (root : Node) (name : FoldedName) (id method : NodeId) : Prop :=
  ∃ setting node, root.Stands setting node ∧ node.variableName? = some name ∧ node.id = id ∧
    setting.method = some method

/-- What belongs to a procedure is bound by its name only, and in that procedure; `has` tells which
variables procedures have. All else is bound by a name or as a member. -/
def Binding.Suits (has : FoldedName → NodeId → NodeId → Prop) (method : Option NodeId) (node : Node) :
    Binding → Prop
  | .localVar decl | .param decl =>
    ∃ text ∈ node.nameText?, ∃ owner ∈ method, has (.of text) decl owner
  | .returnValue decl => node.nameText?.isSome ∧ method = some decl
  | _ => node.shape.isReference

def Node.Named (root : Node) (notes : Notes) : Prop :=
  ∀ ⦃setting node binding⦄, root.Stands setting node → notes.binding? node.id = some binding →
    binding.Suits root.HasVariable setting.method node

namespace Binding

variable {has has' : FoldedName → NodeId → NodeId → Prop} {method : Option NodeId} {node node' : Node}
  {binding : Binding}

theorem Suits.mono (suits : binding.Suits has method node)
    (kept : ∀ name id owner, has name id owner → has' name id owner)
    (spelt : node'.nameText? = node.nameText?)
    (refers : node'.shape.isReference = node.shape.isReference) : binding.Suits has' method node' := by
  cases binding with
  | localVar decl | param decl =>
    obtain ⟨text, isText, owner, inMethod, known⟩ := suits
    exact ⟨text, spelt ▸ isText, owner, inMethod, kept _ _ _ known⟩
  | returnValue decl => exact ⟨spelt ▸ suits.1, suits.2⟩
  | _ => exact refers.trans suits

theorem suits_of_target? (aimless : binding.target? = none) (reference : node.shape.isReference) :
    binding.Suits has method node := by
  cases binding with
  | localVar | param | returnValue => exact nomatch aimless
  | _ => exact reference

theorem Suits.isReference (suits : binding.Suits has method node) : node.shape.isReference := by
  have named (isName : node.nameText?.isSome) : node.shape.isReference := by
    unfold Node.nameText? Shape.nameText? at isName
    split at isName
    · rename_i shape
      rw [shape]
      rfl
    · exact nomatch isName
  cases binding with
  | localVar decl | param decl =>
    obtain ⟨text, isText, _⟩ := suits
    exact named (Option.isSome_of_mem isText)
  | returnValue decl => exact named suits.1
  | _ => exact suits

end Binding

namespace Node

/-- A map of nodes that changes no name, of whatever kind. -/
structure Spells (f : Node → Node) : Prop where
  declares : ∀ node, (f node).variableName? = node.variableName?
  names : ∀ node, (f node).nameText? = node.nameText?
  refers : ∀ node, (f node).shape.isReference = node.shape.isReference

variable {f : Node → Node} {leaves : Node → List Node} {root node : Node} {notes : Notes}

theorem variableName?_withParts (g : Node → Node) (node : Node) :
    (node.withParts g).variableName? = node.variableName? := by
  rcases node with ⟨info, shape⟩
  cases shape with
  | loop test body => cases test <;> rfl
  | _ => rfl

theorem Spells.variableName?_mapUp (spells : Spells f) (node : Node) :
    (node.mapUp f).variableName? = node.variableName? := by
  rw [mapUp_eq, spells.declares, rebuilt, variableName?_withParts]

theorem nameText?_withParts (g : Node → Node) (node : Node) :
    (node.withParts g).nameText? = node.nameText? := by
  rcases node with ⟨info, shape⟩
  cases shape with
  | loop test body => cases test <;> rfl
  | _ => rfl

theorem Spells.nameText?_mapUp (spells : Spells f) (node : Node) :
    (node.mapUp f).nameText? = node.nameText? := by
  rw [mapUp_eq, spells.names, rebuilt, nameText?_withParts]

theorem Spells.isReference_mapUp (spells : Spells f) (node : Node) :
    (node.mapUp f).shape.isReference = node.shape.isReference :=
  read_mapUp Shape.isReference_mapParts spells.refers node

theorem family_of_variableName? {name : FoldedName} (isVariable : node.variableName? = some name) :
    node.shape.family = .localVar ∨ node.shape.family = .param := by
  unfold variableName? at isVariable
  split at isVariable
  · rename_i shape
    exact .inl (by rw [shape]; rfl)
  · rename_i shape
    exact .inr (by rw [shape]; rfl)
  · exact nomatch isVariable

theorem shape_of_nameText? {text : String} (isText : node.nameText? = some text) :
    node.shape = .name text := by
  unfold nameText? Shape.nameText? at isText
  split at isText
  · rename_i shape
    rw [shape, Option.some.inj isText]
  · exact nomatch isText

theorem Spells.of_fixed (family : ∀ node, (f node).shape.family = node.shape.family)
    (fixed : ∀ node : Node, node.shape.family = .localVar ∨ node.shape.family = .param ∨
      node.shape.family = .expression → f node = node) : Spells f := by
  constructor
  · intro node
    by_cases fixes : node.shape.family = .localVar ∨ node.shape.family = .param
    · rw [fixed node (fixes.imp_right .inl)]
    · have unnamed {other : Node} (same : other.shape.family = node.shape.family) :
          other.variableName? = none := Option.eq_none_iff_forall_ne_some.2 fun name isVariable =>
        fixes (same ▸ family_of_variableName? isVariable)
      rw [unnamed (family node), unnamed rfl]
  · intro node
    by_cases fixes : node.shape.family = .expression
    · rw [fixed node (.inr (.inr fixes))]
    · have unnamed {other : Node} (same : other.shape.family = node.shape.family) :
          other.nameText? = none := Option.eq_none_iff_forall_ne_some.2 fun text isText =>
        fixes (same ▸ by rw [shape_of_nameText? isText]; rfl)
      rw [unnamed (family node), unnamed rfl]
  · intro node
    by_cases fixes : node.shape.family = .expression
    · rw [fixed node (.inr (.inr fixes))]
    · rw [Shape.isReference_of_family fixes,
        Shape.isReference_of_family (by rwa [family node])]

section Alters

variable (spells : Spells f) (alters : Alters f leaves) (nested : root.Nested)

include spells alters nested

theorem HasVariable.mapUp {name : FoldedName} {id method : NodeId}
    (has : root.HasVariable name id method) : (root.mapUp f).HasVariable name id method := by
  obtain ⟨setting, node, stands, isVariable, isId, inMethod⟩ := has
  have differs : node.shape.family ≠ .expression := by
    rcases family_of_variableName? isVariable with family | family <;> rw [family] <;> decide
  obtain ⟨_, stands', isCarried⟩ :=
    (alters.carries root).stays (Alters.carried_root f root) nested stands differs
  have sameId := (alters.carries root).id isCarried
  obtain ⟨_, rfl⟩ := isCarried
  exact ⟨setting, _, stands', (spells.variableName?_mapUp node).trans isVariable,
    sameId.trans isId, inMethod⟩

/-- A pass that changes no name and makes none keeps what names suit. -/
theorem Named.mapUp (named : root.Named notes) (unbound : ∀ old ∈ root.descendants,
      ∀ leaf ∈ leaves (old.rebuilt f), notes.binding? leaf.id = none) :
    (root.mapUp f).Named notes := by
  intro setting node binding stands noted
  rcases (alters.carries root).origin (Alters.carried_root f root) stands with
    ⟨source, above, isCarried⟩ | ⟨_, old, above, made, _⟩
  · have id := (alters.carries root).id isCarried
    obtain ⟨_, rfl⟩ := isCarried
    rw [id] at noted
    exact (named above noted).mono (fun _ _ _ => HasVariable.mapUp spells alters nested)
      (spells.nameText?_mapUp source) (spells.isReference_mapUp source)
  · rw [unbound old above.mem node made] at noted
    exact nomatch noted

end Alters

end Node

namespace LocalScope

def NamedBy (decl : MethodDecl Node) (scope : LocalScope) : Prop :=
  ∀ name id, scope.local? name = some id ∨ scope.param? name = some id →
    ∃ part ∈ decl.params ++ [decl.body], ∃ node ∈ part.descendants,
      node.variableName? = some (.of name) ∧ node.id = id

theorem ofDecl_named (decl : MethodDecl Node) : (ofDecl decl).NamedBy decl := by
  unfold ofDecl
  refine List.foldlRecOn _ _ (List.foldlRecOn _ _ ?_ ?_) ?_
  · intro name id taken
    simp [local?, param?] at taken
  · intro scope held param listed
    split
    · rename_i entry isParam
      intro name id taken
      rcases taken with isLocal | taken
      · exact held name id (.inl isLocal)
      · rcases param?_addParam_cases taken with ⟨same, isId⟩ | old
        · refine ⟨param, List.mem_append_left _ listed, param, param.mem_descendants_self, ?_,
            isId.symm⟩
          unfold Node.paramDecl? at isParam
          split at isParam
          · rename_i shape
            rw [Node.variableName?, shape, ← same, Option.some.inj isParam]
          · cases isParam
        · exact held name id (.inr old)
    · exact held
  · intro scope held node listed
    split
    · rename_i entry shape
      intro name id taken
      rcases taken with taken | isParam
      · rcases local?_addLocal_cases taken with ⟨same, isId⟩ | old
        · refine ⟨decl.body, List.mem_append_right _ List.mem_cons_self, node,
            Node.mem_ownDescendants listed, ?_, isId.symm⟩
          rw [Node.variableName?, shape, ← same]
        · exact held name id (.inl old)
      · exact held name id (.inr isParam)
    · exact held

end LocalScope

theorem Node.Stands.below_method {root node below : Node} {setting : Setting}
    (stands : root.Stands setting node) (layers : root.InLayers)
    (isMethod : node.shape.family = .method) (lies : below ∈ node.descendants) (differs : below ≠ node) :
    ∃ setting', root.Stands setting' below ∧ setting'.method = some node.id := by
  rcases mem_descendants_cases lies with rfl | ⟨part, inside, deeper⟩
  · exact absurd rfl differs
  have inMethod : (node.setting setting).method = some node.id := by rw [Node.setting, isMethod]
  have held := (layers node stands.mem).parts part inside
  rw [isMethod] at held
  cases family : part.shape.family with
  | block =>
    obtain ⟨setting', stands', same⟩ :=
      (stands.part inside).below_inner layers (by rw [family]; rfl) deeper
    exact ⟨setting', stands', same.trans inMethod⟩
  | param =>
    rcases mem_descendants_cases deeper with rfl | ⟨value, isValue, lies⟩
    · exact ⟨_, stands.part inside, inMethod⟩
    · have isExpression := (layers part (stands.part inside).mem).parts value isValue
      rw [family] at isExpression
      obtain ⟨setting', stands', same⟩ :=
        ((stands.part inside).part isValue).below_inner layers (by
          revert isExpression
          cases value.shape.family <;> decide) lies
      refine ⟨setting', stands', same.trans ?_⟩
      rw [Node.setting, family]
      exact inMethod
  | _ =>
    rw [family] at held
    cases held

theorem Node.Stands.below_of_method {root node : Node} {setting : Setting} {id : NodeId}
    (stands : root.Stands setting node) (inMethod : setting.method = some id) :
    ∃ method ∈ root.descendants, method.id = id ∧ method.shape.family = .method ∧
      node ∈ method.descendants := by
  induction stands with
  | root => exact nomatch inMethod
  | @part outer parent part above inside ih =>
    unfold Node.setting at inMethod
    dsimp only at inMethod
    split at inMethod
    · rename_i isMethod
      exact ⟨parent, above.mem, Option.some.inj inMethod, isMethod, child_mem_descendants inside⟩
    · exact nomatch inMethod
    · obtain ⟨method, among, same, isMethod, lies⟩ := ih inMethod
      exact ⟨method, among, same, isMethod,
        mem_descendants_trans (child_mem_descendants inside) lies⟩

theorem ScopeIndex.hasVariable {root : Node} (layers : root.InLayers) {method id : NodeId}
    {scope : LocalScope} {name : String} (listed : (ofTree root).bodies[method]? = some scope)
    (taken : scope.local? name = some id ∨ scope.param? name = some id) :
    root.HasVariable (.of name) id method := by
  obtain ⟨node, inside, decl, rfl, shape, rfl⟩ := (ofTree_held root).bodies method scope listed
  obtain ⟨part, isPart, below, lies, isVariable, isId⟩ := LocalScope.ofDecl_named decl name id taken
  obtain ⟨setting, stands⟩ := Node.exists_stands inside
  have among : below ∈ node.descendants := by
    refine Node.mem_descendants_of_child ?_ lies
    rw [Node.children, shape]
    exact isPart
  obtain ⟨setting', stands', inMethod⟩ := stands.below_method layers (by rw [shape]; rfl) among (by
    rintro rfl
    rw [Node.variableName?, shape] at isVariable
    cases isVariable)
  exact ⟨setting', below, stands', isVariable, isId, inMethod⟩

section Visits

variable {around : Surroundings} {roles : NodeId → Role} {place : Place} {bound : Nat} {old : Node}
  {state after last : ResolutionState}

theorem Surroundings.typed_suits {has : FoldedName → NodeId → NodeId → Prop}
    {bodies : Std.HashMap NodeId LocalScope}
    (known : ∀ {method scope name id}, bodies[method]? = some scope →
      scope.local? name = some id ∨ scope.param? name = some id → has (.of name) id method)
    (final : Bool) (notes : Notes) (cache : MemberMemo) {binding : Binding}
    (found : (around.typed final notes bodies cache place).1.binding = some binding) :
    binding.Suits has place.setting.method place.node := by
  obtain ⟨_, -, binds⟩ := Surroundings.typed_binds final notes cache found
  have isReference := binds.isReference
  cases binds with
  | unresolved => exact isReference
  | member _ finding => exact Binding.suits_of_target? finding.target? isReference
  | @name text _ shape taken =>
    have isText : place.node.nameText? = some text := by rw [Node.nameText?, shape]; rfl
    cases Surroundings.find?_eq_some taken with
    | returnValue isMethod =>
      refine ⟨by rw [isText]; rfl, ?_⟩
      rw [Place.setting, isMethod]
      rfl
    | localVar isMethod body isLocal =>
      refine ⟨text, isText, _, ?_, known body (.inl isLocal)⟩
      rw [Place.setting, isMethod]
      rfl
    | param isMethod body isParam =>
      refine ⟨text, isText, _, ?_, known body (.inr isParam)⟩
      rw [Place.setting, isMethod]
      rfl
    | _ => exact isReference

namespace ResolutionState

structure Quiet (state after : ResolutionState) : Prop extends state.Frames after where
  bindings : ∀ id, after.notes.binding? id = state.notes.binding? id

namespace Quiet

theorem refl (state : ResolutionState) : state.Quiet state := ⟨⟨rfl, rfl, rfl⟩, fun _ => rfl⟩

theorem trans (first : state.Quiet after) (second : after.Quiet last) : state.Quiet last :=
  ⟨first.toFrames.trans second.toFrames,
    fun id => (second.bindings id).trans (first.bindings id)⟩

theorem describe (state : ResolutionState) (id : NodeId) (descriptor : Descriptor) :
    state.Quiet (state.describe id descriptor) :=
  ⟨state.describe_frames id descriptor, fun other => by
    rw [Notes.binding?, Notes.binding?, state.bindings_describe id descriptor]⟩

theorem decide (state : ResolutionState) (id : NodeId) (mode : LogicalMode) :
    state.Quiet (state.decide id mode) := by
  refine ⟨state.decide_frames id mode, fun other => ?_⟩
  rcases state.decide_cases id mode with ⟨_, same⟩ | ⟨_, noted⟩
  · rw [same]
  · rw [noted, Notes.binding?_decide]

theorem oblige (state : ResolutionState) (obligations : List Obligation) :
    state.Quiet (obligations.foldl .oblige state) := by
  rw [foldl_oblige]
  exact ⟨⟨rfl, rfl, rfl⟩, fun _ => rfl⟩

end Quiet

/-- Nothing changes but what is known of types. -/
structure Redescribes (state after : ResolutionState) : Prop extends state.Quiet after where
  warnings : after.warnings = state.warnings
  obligations : after.obligations = state.obligations

namespace Redescribes

theorem refl (state : ResolutionState) : state.Redescribes state := ⟨.refl state, rfl, rfl⟩

theorem trans (first : state.Redescribes after) (second : after.Redescribes last) :
    state.Redescribes last :=
  ⟨first.toQuiet.trans second.toQuiet, second.warnings.trans first.warnings,
    second.obligations.trans first.obligations⟩

theorem describe (state : ResolutionState) (id : NodeId) (descriptor : Descriptor) :
    state.Redescribes (state.describe id descriptor) := by
  rcases state.describe_cases id descriptor with ⟨_, same⟩ | ⟨_, new⟩
  · rw [same]
    exact .refl state
  · refine ⟨.describe state id descriptor, ?_, ?_⟩ <;> rw [new]

theorem pour (state : ResolutionState) (flow : Inflow) :
    state.Redescribes (around.pour state flow) := by
  unfold Surroundings.pour
  cases around.inflow? state.notes flow with
  | none => exact .refl state
  | some descriptor => exact .describe state flow.decl descriptor

theorem pourAll (state : ResolutionState) (flows : List Inflow) :
    state.Redescribes (flows.foldl around.pour state) := by
  induction flows generalizing state with
  | nil => exact .refl state
  | cons flow rest ih => exact (pour state flow).trans (ih _)

theorem default (state : ResolutionState) (final : Bool) (id : NodeId) :
    state.Redescribes (Surroundings.defaultType final id state) := by
  unfold Surroundings.defaultType
  split
  · exact .describe state id .object
  · exact .refl state

theorem fill (state : ResolutionState) (final : Bool) (node : Node) :
    state.Redescribes (Surroundings.fill final node state) := by
  unfold Surroundings.fill
  split <;> first | exact .default state final _ | exact .refl state

theorem sweepProperty (state : ResolutionState) (final : Bool) (id : NodeId)
    (decl : PropertyDecl Node) : state.Redescribes (around.sweepProperty final id decl state) := by
  rw [Surroundings.sweepProperty_eq]
  split
  · exact .describe state id _
  · exact .default state final id

end Redescribes

theorem sweepNode_redescribes (around : Surroundings) (final : Bool) (place : Place)
    (state : ResolutionState) :
    (around.judge final place state).Redescribes (around.sweepNode final state place) := by
  rw [Surroundings.sweepNode_eq]
  exact (Redescribes.pourAll _ _).trans (.fill _ final _)

theorem binding?_bind_eq (state : ResolutionState) (id other : NodeId) (binding : Binding) :
    (state.bind id binding).notes.binding? other =
      if id = other then some binding else state.notes.binding? other := by
  rcases state.bind_cases id binding with ⟨noted, same⟩ | ⟨_, new⟩
  · rw [same]
    split
    · rename_i isId
      rw [← isId, noted]
    · rfl
  · rw [new, Notes.binding?_bind]

theorem noteJudgement_quiet (place : Place) (typed : Judgement) (state : ResolutionState) :
    (typed.binding.elim state (state.bind place.node.id)).Quiet
      (around.noteJudgement place typed state) := by
  unfold Surroundings.noteJudgement
  dsimp only
  have decided : state.Quiet (typed.mode.elim state (state.decide place.node.id)) := by
    cases typed.mode with
    | none => exact .refl state
    | some mode => exact .decide state _ mode
  revert decided
  generalize typed.mode.elim state (state.decide place.node.id) = decided
  intro quiet
  have bound : (typed.binding.elim state (state.bind place.node.id)).Quiet
      (typed.binding.elim decided fun binding =>
        ((around.obligationsOf place binding).foldl .oblige decided).bind place.node.id binding) := by
    cases typed.binding with
    | none => exact quiet
    | some binding =>
      have obliged := quiet.trans (.oblige decided (around.obligationsOf place binding))
      have before := state.bind_frames place.node.id binding
      have later := ((around.obligationsOf place binding).foldl .oblige decided).bind_frames
        place.node.id binding
      refine ⟨⟨?_, ?_, ?_⟩, fun id => ?_⟩
      · exact later.root.trans (obliged.root.trans before.root.symm)
      · exact later.bodies.trans (obliged.bodies.trans before.bodies.symm)
      · exact later.implicit.trans (obliged.implicit.trans before.implicit.symm)
      · simp only [Option.elim_some, binding?_bind_eq, obliged.bindings]
  refine bound.trans ?_
  generalize (typed.binding.elim decided fun binding =>
    ((around.obligationsOf place binding).foldl .oblige decided).bind place.node.id binding) = bound
  have owed : bound.Quiet (if Surroundings.isMissing place.node then
      place.type?.elim bound fun type => bound.oblige (.missing type.id) else bound) := by
    split
    · cases place.type? with
      | none => exact .refl bound
      | some type => exact .oblige bound [.missing type.id]
    · exact .refl bound
  refine owed.trans ?_
  cases typed.descriptor with
  | none => exact .refl _
  | some descriptor => exact .describe _ _ descriptor

def HasVariable (state : ResolutionState) (name : FoldedName) (id method : NodeId) : Prop :=
  state.root.HasVariable name id method ∨ ∃ entry ∈ state.implicit,
    entry.decl.variableName? = some name ∧ entry.decl.id = id ∧ ∃ setting block, state.root.Stands setting block ∧
      block.id = entry.block ∧ block.shape.family = .block ∧ setting.method = some method

/-- The names that are known in procedures are names of their variables, and names suit the procedures
they stand in. -/
structure Naming (state : ResolutionState) : Prop where
  known : ∀ {method : NodeId} {scope : LocalScope} {name : String} {id : NodeId},
    state.bodies[method]? = some scope → scope.local? name = some id ∨ scope.param? name = some id →
      state.HasVariable (.of name) id method
  suits : ∀ {setting : Setting} {node : Node} {binding : Binding}, state.root.Stands setting node →
    state.notes.binding? node.id = some binding →
      binding.Suits state.HasVariable setting.method node

theorem Frames.hasVariable (frames : state.Frames after) : after.HasVariable = state.HasVariable := by
  unfold HasVariable
  rw [frames.root, frames.implicit]

namespace Naming

theorem quiet (naming : state.Naming) (quiet : state.Quiet after) : after.Naming := by
  constructor
  · intro method scope name id body taken
    rw [quiet.bodies] at body
    rw [quiet.hasVariable]
    exact naming.known body taken
  · intro setting node binding stands noted
    rw [quiet.root] at stands
    rw [quiet.bindings] at noted
    rw [quiet.hasVariable]
    exact naming.suits stands noted

theorem bind (naming : state.Naming) (distinct : state.root.Distinct)
    (inside : place ∈ state.root.placesUp) {binding : Binding}
    (suits : binding.Suits state.HasVariable place.setting.method place.node) :
    (state.bind place.node.id binding).Naming := by
  have frames := state.bind_frames place.node.id binding
  constructor
  · intro method scope name id body taken
    rw [frames.bodies] at body
    rw [frames.hasVariable]
    exact naming.known body taken
  · intro setting node other stands noted
    rw [frames.root] at stands
    rw [frames.hasVariable]
    rw [binding?_bind_eq] at noted
    split at noted
    · rename_i isHere
      obtain rfl := Option.some.inj noted
      have here := Node.stands_of_place (Node.mem_places_iff.2 inside)
      rw [stands.unique distinct here isHere.symm,
        distinct.eq_of_id_eq stands.mem here.mem isHere.symm]
      exact suits
    · exact naming.suits stands noted

theorem note (naming : state.Naming) (distinct : state.root.Distinct)
    (inside : place ∈ state.root.placesUp) {typed : Judgement}
    (suits : ∀ binding ∈ typed.binding,
      binding.Suits state.HasVariable place.setting.method place.node) :
    (around.noteJudgement place typed state).Naming := by
  refine Naming.quiet ?_ (noteJudgement_quiet place typed state)
  cases found : typed.binding with
  | none => exact naming
  | some binding => exact naming.bind distinct inside (suits binding found)

/-- A variable that is declared for a name has that name, and belongs to the procedure around it. -/
theorem declare (naming : state.Naming) (layers : state.root.InLayers)
    (inside : place ∈ state.root.placesUp) {name : String} {id : NodeId}
    (taken : state.declare place name = (some id, after)) :
    after.Naming ∧ after.root = state.root ∧
      ∃ owner ∈ place.setting.method, after.HasVariable (.of name) id owner := by
  obtain ⟨method, decl, isMethod, isDecl, rfl, isAfter⟩ := declare_eq_some taken
  have listed := Node.around_subset inside (Place.isMethod_of_method? isMethod).1
  have shape := Node.shape_of_methodDecl? isDecl
  have new : after.HasVariable (.of name) ⟨state.fresh⟩ method.id := by
    obtain ⟨setting, body, isBlock, owner⟩ := layers.stands_body listed shape
    subst isAfter
    exact .inr ⟨_, List.mem_cons_self, rfl, rfl, setting, decl.body, body, rfl, isBlock, owner⟩
  have kept {other : FoldedName} {found owner : NodeId}
      (known : state.HasVariable other found owner) : after.HasVariable other found owner := by
    subst isAfter
    refine known.imp id ?_
    rintro ⟨entry, among, rest⟩
    exact ⟨entry, List.mem_cons_of_mem _ among, rest⟩
  have root : after.root = state.root := by rw [isAfter]
  have notes : after.notes = state.notes := by rw [isAfter]
  refine ⟨⟨?_, ?_⟩, root, method.id, ?_, new⟩
  · intro owner scope other found body taken
    rw [isAfter] at body
    obtain ⟨ofLocal, ofParam⟩ := LocalScope.declared_cases body other found
    rcases taken with isLocal | isParam
    · rcases ofLocal isLocal with ⟨rfl, same, rfl⟩ | ⟨before, body, taken⟩
      · exact same ▸ new
      · exact kept (naming.known body (.inl taken))
    · obtain ⟨before, body, taken⟩ := ofParam isParam
      exact kept (naming.known body (.inr taken))
  · intro setting node binding stands noted
    rw [root] at stands
    rw [notes] at noted
    exact (naming.suits stands noted).mono (fun _ _ _ => kept) rfl rfl
  · rw [Place.setting, isMethod]
    rfl

theorem judgeExpression (naming : state.Naming) (layers : state.root.InLayers)
    (distinct : state.root.Distinct) (inside : place ∈ state.root.placesUp) (final : Bool) :
    (around.judgeExpression final place state).Naming := by
  have suits (binding : Binding) (found : binding ∈
      (around.typed final state.notes state.bodies state.cache place).1.binding) :=
    Surroundings.typed_suits naming.known final state.notes state.cache found
  have recorded : (around.recorded final place state).Naming :=
    naming.quiet ⟨⟨rfl, rfl, rfl⟩, fun _ => rfl⟩
  rcases around.judgeExpression_cases final place state with same | ⟨needed, id, after, taken, same⟩
  · rw [same]
    exact recorded.note distinct inside suits
  · rw [same]
    obtain ⟨declared, root, owner, inMethod, new⟩ := recorded.declare layers inside taken
    refine declared.note (by rw [root]; exact distinct) (by rw [root]; exact inside) ?_
    intro binding isNew
    obtain rfl := Option.some.inj isNew
    rw [Surroundings.declaresAt] at needed
    split at needed
    · rename_i text isText
      rw [isText] at new
      exact ⟨text, isText, owner, inMethod, new⟩
    · exact nomatch needed

theorem visit (naming : state.Naming) (layers : state.root.InLayers) (distinct : state.root.Distinct)
    (inside : place ∈ state.root.placesUp) (final : Bool) :
    (around.sweepNode final state place).Naming := by
  have judged : (around.judge final place state).Naming := by
    unfold Surroundings.judge
    split
    · exact naming.quiet (Redescribes.sweepProperty state final _ _).toQuiet
    · split
      · exact naming.judgeExpression layers distinct inside final
      · exact naming
  exact judged.quiet (sweepNode_redescribes around final place state).toQuiet

/-- The variables that were declared stand in their procedures when they are put into the tree. -/
theorem settleImplicit (naming : state.Naming) (keeps : state.Keeps roles old)
    (fits : state.Fits around roles) : state.settleImplicit.Naming := by
  rw [settleImplicit_eq]
  have bare := fun entry listed => (fits.implicit entry listed).2.2.1
  have adds := declareIn_adds bare
  have spells : Node.Spells (declareIn state.implicit) :=
    .of_fixed adds.alters.family fun node fixes => declareIn_of_family (by
      rcases fixes with family | family | family <;> rw [family] <;> decide)
  have nested := keeps.houses.layers.nested
  have carries := adds.alters.carries state.root
  have starts := Node.Alters.carried_root (declareIn state.implicit) state.root
  have kept {name : FoldedName} {id owner : NodeId} (has : state.HasVariable name id owner) :
      (state.root.mapUp (declareIn state.implicit)).HasVariable name id owner := by
    rcases has with has | ⟨entry, listed, isVariable, isId, setting, block, stands, isBody, isBlock,
      inMethod⟩
    · exact has.mapUp spells adds.alters nested
    · obtain ⟨within, stands', same⟩ :=
        stands_mapUp_declareIn bare nested listed stands isBody isBlock
      exact ⟨within, entry.decl, stands', isVariable, isId, same.trans inMethod⟩
  refine ⟨fun body taken => .inl (kept (naming.known body taken)), ?_⟩
  intro setting node binding stands noted
  rcases carries.origin starts stands with ⟨source, above, isCarried⟩ | ⟨_, _, _, found, _⟩
  · have id := carries.id isCarried
    obtain ⟨_, rfl⟩ := isCarried
    rw [id] at noted
    exact (naming.suits above noted).mono (fun _ _ _ has => .inl (kept has))
      (spells.nameText?_mapUp source) (spells.isReference_mapUp source)
  · obtain ⟨entry, listed, rfl, _⟩ := mem_leavesOf found
    have role := keeps.binds _ _ noted
    rw [(fits.implicit entry listed).1.role] at role
    cases role

theorem sweep (naming : state.Naming) (keeps : state.Keeps roles old) (fits : state.Fits around roles)
    (static : around.Fits roles bound) (older : bound ≤ state.fresh) (final : Bool) :
    (around.sweep final state).Naming := by
  have startedFits := fits.record state.cache state.warnings state.obligations false
  have started : { state with changed := false }.Keeps roles old := ⟨keeps.houses, keeps.binds⟩
  have walked : (around.walk final state.root.placesUp { state with changed := false }).Naming := by
    refine startedFits.walk_induction final static older (fun _ listed => listed)
      (motive := Naming) (naming.quiet ⟨⟨rfl, rfl, rfl⟩, fun _ => rfl⟩) ?_
    intro before place beforeFits _ sameRoot listed holds
    have layers := keeps.houses.layers
    exact holds.visit (sameRoot ▸ layers) beforeFits.tree.distinct (sameRoot ▸ listed) final
  exact walked.settleImplicit (started.walk startedFits static older final)
    (startedFits.walk final static older fun _ listed => listed).1

theorem sweeps (naming : state.Naming) (keeps : state.Keeps roles old)
    (underway : state.Underway around roles bound) (static : around.Fits roles bound)
    (attempts : Nat) : (around.sweeps attempts state).2.Naming :=
  keeps.sweeps_induction underway static (motive := Naming) naming (fun keeps underway naming =>
    naming.sweep keeps underway.fits static underway.older false) attempts

theorem settle (naming : state.Naming) (keeps : state.Keeps roles old) (fits : state.Fits around roles)
    (clear : state.implicit = []) (outer : around.KnowsOuter) (draft : Draft) :
    (around.settle draft state).root.Named (around.settle draft state).notes := by
  have named : state.root.Named state.notes := by
    intro setting node binding stands noted
    refine (naming.suits stands noted).mono (fun name id owner has => ?_) rfl rfl
    rcases has with has | ⟨entry, listed, _⟩
    · exact has
    · rw [clear] at listed
      cases listed
  have marks := Obligation.apply_adds state.obligations
  have pays : Node.Adds (around.payFields (around.undeferred draft state)) _ :=
    Surroundings.payFields_adds
  have shows := Node.withVisibility_adds
  have marksSpell : Node.Spells (Obligation.apply state.obligations) :=
    .of_fixed marks.alters.family fun node fixes => by
      rcases node with ⟨info, shape⟩
      cases shape <;> first | rfl | simp [Node.shape, Shape.family] at fixes
  have paysSpell : Node.Spells (around.payFields (around.undeferred draft state)) :=
    .of_fixed pays.alters.family fun node fixes => Surroundings.payFields_of_family (by
      rcases fixes with family | family | family <;> rw [family] <;> decide)
  have showsSpell : Node.Spells Node.withVisibility :=
    .of_fixed shows.alters.family fun node fixes => by
      rcases node with ⟨info, shape⟩
      cases shape <;> first | rfl | simp [Node.shape, Shape.family] at fixes
  have none' (node : Node) : ∀ leaf ∈ ([] : List Node),
      node.shape.family.holds leaf.shape.family := fun _ absurd => by cases absurd
  have layers := keeps.houses.layers
  have paid {node leaf : Node}
      (found : leaf ∈ around.paidFields (around.undeferred draft state) node) :
      node.shape.family.holds leaf.shape.family ∧ state.notes.binding? leaf.id = none := by
    obtain ⟨entry, listed, rfl⟩ := List.mem_map.1 found
    obtain ⟨isType, large, _⟩ := Surroundings.newFields_cases outer listed
    rw [Shape.isType_eq] at isType
    refine ⟨by rw [eq_of_beq isType]; rfl, Option.eq_none_iff_forall_ne_some.2 fun binding noted => ?_⟩
    have role : roles entry.1 = .expression := keeps.binds _ _ noted
    rw [fits.later _ large] at role
    cases role
  have marked := named.mapUp marksSpell marks.alters layers.nested fun _ _ _ absurd => by cases absurd
  have complete := marked.mapUp paysSpell pays.alters (layers.mapUp marks none').nested
    fun _ _ _ found => (paid found).2
  have shown := complete.mapUp showsSpell shows.alters
    ((layers.mapUp marks none').mapUp pays fun _ _ found => (paid found).1).nested
    fun _ _ _ absurd => by cases absurd
  rw [Surroundings.root_settle]
  exact fun _ _ _ stands noted => shown stands ((Surroundings.binding?_settle _).symm.trans noted)

end Naming

end ResolutionState

end Visits

namespace Draft.Prepared

variable {symbols : SymbolTable} {options : MigrationOptions} {store : ScriptStore}
  {id : ScriptId} {script : Script} {draft : Draft}

theorem start_naming (prepared : draft.Prepared) (cache : MemberMemo) :
    ((Surroundings.forScript symbols options store id script draft).start draft cache).Naming :=
  ⟨fun body taken => .inl (ScopeIndex.hasVariable prepared.layered.layers body taken),
    fun _ noted =>
      nomatch ((Surroundings.start_notes _ cache prepared.formed.unknown).2 _).symm.trans noted⟩

theorem resolveDraft_named (prepared : draft.Prepared) (cache : MemberMemo) {resolved : Draft}
    (isResolved : ((Surroundings.forScript symbols options store id script draft).resolveDraft draft
      cache).draft = resolved) : resolved.root.Named resolved.notes := by
  obtain ⟨outer, static, before, underway, keeps, naming, rfl⟩ :=
    prepared.resolveDraft_induction cache rfl isResolved (motive := ResolutionState.Naming)
      (prepared.start_naming cache) fun final static keeps underway naming =>
        naming.sweep keeps underway.fits static underway.older final
  have last := underway.sweep static true
  exact naming.settle keeps last.fits last.clear outer draft

end Draft.Prepared

end ScriptMigration
