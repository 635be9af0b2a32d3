import ScriptMigration.Proofs.Resolution.Lookups
import ScriptMigration.Proofs.Resolution.Obligations

/-! The variables that a script does not declare. A name that is given a value and stands for nothing is
declared when it is first visited; from then on it stands for its variable, so in a procedure there is
one for each name, and what could be found already is never declared. -/
namespace ScriptMigration

namespace Shape

variable {α β : Type}

def implicitName? : Shape α → Option String
  | localVar decl => if decl.origin = .implicit then some decl.name else none
  | _ => none

@[simp] theorem implicitName?_mapParts (shape : Shape α) (f : (a : α) → a ∈ shape.children → β) :
    (shape.mapParts f).implicitName? = shape.implicitName? := by
  cases shape with
  | loop test body => cases test <;> rfl
  | _ => rfl

theorem family_of_implicitName? {shape : Shape α} {name : String}
    (isImplicit : shape.implicitName? = some name) : shape.family = .localVar := by
  cases shape with
  | localVar decl => rfl
  | _ => exact nomatch isImplicit

end Shape

structure Draft.Introduces (around : Surroundings) (draft resolved : Draft) : Prop where
  once : ∀ place ∈ resolved.root.placesUp, ∀ other ∈ resolved.root.placesUp, ∀ name name',
    place.node.shape.implicitName? = some name → other.node.shape.implicitName? = some name' →
      sameName name name' → place.method?.map Node.id = other.method?.map Node.id → place = other
  asked : ∀ place ∈ resolved.root.placesUp, ∀ name, place.node.shape.implicitName? = some name →
    ∃ target ∈ draft.root.placesUp, target.node.nameText? = some name ∧ target.IsTarget ∧
      place.method?.isSome ∧ target.method?.map Node.id = place.method?.map Node.id
  unknown : ∀ place ∈ resolved.root.placesUp, ∀ name, place.node.shape.implicitName? = some name →
    ∀ other ∈ draft.root.placesUp, ∀ text, other.node.nameText? = some text → sameName text name →
      other.method?.map Node.id = place.method?.map Node.id →
      around.find? (ScopeIndex.ofTree draft.root).bodies other text = none
  bound : draft.explicit = false → ∀ target ∈ draft.root.placesUp, ∀ text,
    target.node.nameText? = some text → target.IsTarget → target.method?.isSome →
    around.find? (ScopeIndex.ofTree draft.root).bodies target text = none →
    ∃ place ∈ resolved.root.placesUp, ∃ name, place.node.shape.implicitName? = some name ∧
      sameName name text ∧ place.method?.map Node.id = target.method?.map Node.id ∧
      resolved.notes.binding? target.node.id = some (.localVar place.node.id)
  explicit : draft.explicit → ∀ node ∈ resolved.root.descendants, node.shape.implicitName? = none

section Trees

namespace Node

def HasImplicit (root : Node) (name : String) (id method : NodeId) : Prop :=
  ∃ setting node, root.Stands setting node ∧ node.shape.implicitName? = some name ∧ node.id = id ∧
    setting.method = some method

variable {f : Node → Node} {leaves : Node → List Node} {root : Node} {name : String}
  {id method : NodeId}

theorem HasImplicit.mapUp (has : root.HasImplicit name id method) (adds : Adds f leaves)
    (kept : ∀ node : Node, (f node).shape.implicitName? = node.shape.implicitName?)
    (nested : root.Nested) : (root.mapUp f).HasImplicit name id method := by
  obtain ⟨setting, node, stands, isImplicit, isId, inMethod⟩ := has
  have differs : node.shape.family ≠ .expression := by
    rw [Shape.family_of_implicitName? isImplicit]
    decide
  have carries := adds.alters.carries root
  obtain ⟨_, stands', isCarried⟩ :=
    carries.stays (Alters.carried_root f root) nested stands differs
  have sameId := carries.id isCarried
  obtain ⟨_, rfl⟩ := isCarried
  exact ⟨setting, _, stands', (read_mapUp (fun shape g => shape.implicitName?_mapParts g) kept
    node).trans isImplicit, sameId.trans isId, inMethod⟩

theorem HasImplicit.of_mapUp (has : (root.mapUp f).HasImplicit name id method)
    (adds : Adds f leaves)
    (kept : ∀ node : Node, (f node).shape.implicitName? = node.shape.implicitName?) :
    root.HasImplicit name id method ∨ ∃ outer old leaf, root.Stands outer old ∧
      leaf ∈ leaves (old.rebuilt f) ∧ leaf.shape.implicitName? = some name ∧ leaf.id = id ∧
      (old.setting outer).method = some method := by
  obtain ⟨setting, node, stands, isImplicit, isId, inMethod⟩ := has
  have carries := adds.alters.carries root
  rcases carries.origin (Alters.carried_root f root) stands with
    ⟨source, above, isCarried⟩ | ⟨outer, old, above, leaf, rfl⟩
  · have sameId := carries.id isCarried
    obtain ⟨_, rfl⟩ := isCarried
    exact .inl ⟨setting, source, above, (read_mapUp (fun shape g => shape.implicitName?_mapParts g)
      kept source).symm.trans isImplicit, sameId.symm.trans isId, inMethod⟩
  · exact .inr ⟨outer, old, node, above, leaf, isImplicit, isId, inMethod⟩

end Node

end Trees

section Visits

variable {around : Surroundings} {roles : NodeId → Role} {bound : Nat} {place : Place} {old : Node}
  {start : Std.HashMap NodeId LocalScope} {state after : ResolutionState} {seen : List Place}

namespace ResolutionState

def HasImplicit (state : ResolutionState) (name : String) (id method : NodeId) : Prop :=
  state.root.HasImplicit name id method ∨ ∃ entry ∈ state.implicit,
    entry.decl.shape.implicitName? = some name ∧ entry.decl.id = id ∧
      ∃ setting block, state.root.Stands setting block ∧ block.id = entry.block ∧
        block.shape.family = .block ∧ setting.method = some method

def local? (state : ResolutionState) (method : NodeId) (name : String) : Option NodeId :=
  state.bodies[method]?.bind (·.local? name)

/-- Since the start, variables were declared for names only that stood for nothing; `old` is the tree
that the names are in, and the names at the places that were seen are bound to their variables. -/
structure Introduced (state : ResolutionState) (around : Surroundings) (old : Node)
    (start : Std.HashMap NodeId LocalScope) (seen : List Place) : Prop where
  names : state.root.NamesAs around old
  params : ∀ (method : NodeId) (name : String),
    state.bodies[method]?.bind (·.param? name) = start[method]?.bind (·.param? name)
  kept : ∀ {method id : NodeId} {name : String}, start[method]?.bind (·.local? name) = some id →
    state.local? method name = some id
  held : ∀ {method id : NodeId} {name : String}, state.HasImplicit name id method →
    state.local? method name = some id
  known : ∀ {method id : NodeId} {name : String}, state.local? method name = some id →
    start[method]?.bind (·.local? name) = some id ∨
      ∃ spelt, FoldedName.of spelt = .of name ∧ state.HasImplicit spelt id method
  asked : ∀ {method id : NodeId} {name : String}, state.HasImplicit name id method →
    ∃ place ∈ old.placesUp, around.declaresAt start place ∧ place.node.nameText? = some name ∧
      place.method?.map Node.id = some method
  bound : ∀ place ∈ seen, around.declaresAt start place → ∀ text method,
    place.node.nameText? = some text → place.method?.map Node.id = some method →
      ∃ id, state.local? method text = some id ∧
        state.notes.binding? place.node.id = some (.localVar id)

theorem Frames.hasImplicit (frames : state.Frames after) : after.HasImplicit = state.HasImplicit := by
  unfold HasImplicit
  rw [frames.root, frames.implicit]

theorem Frames.local? (frames : state.Frames after) : after.local? = state.local? := by
  unfold ResolutionState.local?
  rw [frames.bodies]

theorem Introduced.find?_eq (introduced : state.Introduced around old start seen)
    (unknown : around.declaresAt start place) {text : String} {method : NodeId}
    (isText : place.node.nameText? = some text) (inMethod : place.method?.map Node.id = some method) :
    around.find? state.bodies place text = (state.local? method text).map .localVar := by
  obtain ⟨spelt, isSpelt, none', -⟩ := Surroundings.declaresAt_iff.1 unknown
  obtain rfl := Option.some.inj (isText.symm.trans isSpelt)
  obtain ⟨node, isMethod, rfl⟩ := Option.map_eq_some_iff.1 inMethod
  rw [Surroundings.find?_of_none none' fun method => introduced.params method text, isMethod]
  rfl

theorem local?_declare {name : String} {id : NodeId} (taken : state.declare place name = (some id, after))
    {method : NodeId} (inMethod : place.method?.map Node.id = some method)
    (free : state.local? method name = none) (owner : NodeId) (other : String) :
    after.local? owner other =
      if owner = method ∧ FoldedName.of other = .of name then some id
      else state.local? owner other := by
  obtain ⟨node, decl, isMethod, isDecl, rfl, rfl⟩ := declare_eq_some taken
  obtain rfl : node.id = method := by
    rw [isMethod] at inMethod
    exact Option.some.inj inMethod
  have bare : (state.bodies.getD node.id {}).local? name = none := by
    rw [Std.HashMap.getD_eq_getD_getElem?]
    unfold ResolutionState.local? at free
    cases scope : state.bodies[node.id]? with
    | none => simp [LocalScope.local?]
    | some scope' => rwa [scope] at free
  unfold ResolutionState.local?
  rw [Std.HashMap.getElem?_insert]
  by_cases same : owner = node.id
  · subst same
    rw [if_pos (beq_self_eq_true _), Option.bind_some]
    unfold LocalScope.local? at bare ⊢
    rw [LocalScope.addLocal, Std.HashMap.getElem?_insertIfNew]
    by_cases spelt : FoldedName.of other = .of name
    · have absent : ¬FoldedName.of name ∈ (state.bodies.getD node.id {}).locals := by
        rw [← Std.HashMap.isSome_getElem?_iff_mem, bare]
        decide
      rw [if_pos ⟨beq_iff_eq.2 spelt.symm, absent⟩, if_pos ⟨rfl, spelt⟩]
    · have apart : (FoldedName.of name == FoldedName.of other) = false :=
        beq_false_of_ne (Ne.symm spelt)
      simp only [apart, spelt, and_false, false_and, if_false, Bool.false_eq_true]
      rw [Std.HashMap.getD_eq_getD_getElem?]
      cases state.bodies[node.id]? with
      | none => simp
      | some scope => rfl
  · rw [if_neg (by simpa using Ne.symm same), if_neg fun both => same both.1]

theorem param?_declare {name : String} {id : NodeId} (taken : state.declare place name = (some id, after))
    (method : NodeId) (other : String) : after.bodies[method]?.bind (·.param? other) =
      state.bodies[method]?.bind (·.param? other) := by
  obtain ⟨node, decl, isMethod, isDecl, rfl, rfl⟩ := declare_eq_some taken
  rw [Std.HashMap.getElem?_insert]
  split
  · rename_i same
    obtain rfl : node.id = method := by simpa using same
    rw [Std.HashMap.getD_eq_getD_getElem?]
    cases state.bodies[node.id]? with
    | none => simp [LocalScope.param?, LocalScope.addLocal]
    | some scope => rfl
  · rfl

theorem hasImplicit_declare {name : String} {id : NodeId} (distinct : state.root.Distinct)
    (layers : state.root.InLayers) (inside : place ∈ state.root.placesUp) {method : NodeId}
    (inMethod : place.method?.map Node.id = some method)
    (taken : state.declare place name = (some id, after)) (other : String) (found owner : NodeId) :
    after.HasImplicit other found owner ↔
      state.HasImplicit other found owner ∨ other = name ∧ found = id ∧ owner = method := by
  obtain ⟨node, decl, isMethod, isDecl, rfl, rfl⟩ := declare_eq_some taken
  obtain rfl : node.id = method := by
    rw [isMethod] at inMethod
    exact Option.some.inj inMethod
  have listed := Node.around_subset inside (Place.isMethod_of_method? isMethod).1
  obtain ⟨setting, body, isBlock, inBody⟩ :=
    layers.stands_body listed (Node.shape_of_methodDecl? isDecl)
  unfold HasImplicit
  rw [or_assoc]
  refine or_congr_right ?_
  constructor
  · rintro ⟨entry, among, named, isId, setting', block, stands, sameBlock, family, inMethod⟩
    rcases List.mem_cons.1 among with rfl | among
    · have same := stands.unique distinct body sameBlock
      refine .inr ⟨(Option.some.inj named).symm, isId.symm, ?_⟩
      rw [same] at inMethod
      exact Option.some.inj (inMethod.symm.trans inBody)
    · exact .inl ⟨entry, among, named, isId, setting', block, stands, sameBlock, family, inMethod⟩
  · rintro (⟨entry, among, rest⟩ | ⟨rfl, rfl, rfl⟩)
    · exact ⟨entry, List.mem_cons_of_mem _ among, rest⟩
    · exact ⟨_, List.mem_cons_self, rfl, rfl, setting, decl.body, body, rfl, isBlock, inBody⟩

theorem implicitName?_declareIn (implicit : List ImplicitLocal) (node : Node) :
    (declareIn implicit node).shape.implicitName? = node.shape.implicitName? := by
  fun_cases declareIn implicit node <;> simp [*, Node.shape_withShape, Shape.implicitName?]

theorem hasImplicit_mapUp_declareIn (bare : ∀ entry ∈ state.implicit, entry.decl.children = [])
    (nested : state.root.Nested) {name : String} {id method : NodeId} :
    (state.root.mapUp (declareIn state.implicit)).HasImplicit name id method ↔
      state.HasImplicit name id method := by
  have adds := declareIn_adds bare
  constructor
  · intro known
    rcases known.of_mapUp adds (implicitName?_declareIn _) with
      before | ⟨outer, block, leaf, stands, found, named, isId, inMethod⟩
    · exact .inl before
    · obtain ⟨entry, listed, rfl, here⟩ := mem_leavesOf found
      have isBlock := family_of_mem_leavesOf found
      rw [Node.family_rebuilt] at isBlock
      rw [Node.method_setting_of_inner (by rw [isBlock]; rfl)] at inMethod
      rw [Node.id_rebuilt] at here
      exact .inr ⟨entry, listed, named, isId, outer, block, stands, here.symm, isBlock, inMethod⟩
  · rintro (before | ⟨entry, listed, named, isId, setting, block, stands, here, isBlock, inMethod⟩)
    · exact before.mapUp adds (implicitName?_declareIn _) nested
    · obtain ⟨within, stands', same⟩ :=
        stands_mapUp_declareIn bare nested listed stands here isBlock
      exact ⟨within, entry.decl, stands', named, isId, same.trans inMethod⟩

theorem looksUpAs_of_mapUp_declareIn (around : Surroundings) {implicit : List ImplicitLocal} {root : Node}
    (bare : ∀ entry ∈ implicit, entry.decl.children = [])
    (locals : ∀ entry ∈ implicit, entry.decl.shape.family = .localVar)
    (listed : place ∈ (root.mapUp (declareIn implicit)).placesUp)
    (named : place.node.nameText?.isSome) :
    ∃ before ∈ root.placesUp, place.LooksUpAs around before := by
  rcases (declareIn_adds bare).mem_placesUp_mapUp listed with ⟨before, placed, rfl⟩ | ⟨_, _, made⟩
  · exact ⟨before, placed, .mapUp_declareIn _ before⟩
  · obtain ⟨entry, among, same, _⟩ := mem_leavesOf made
    obtain ⟨text, isText⟩ := Option.isSome_iff_exists.1 named
    have family := locals entry among
    rw [same, Node.shape_of_nameText? isText] at family
    cases family

namespace Introduced

/-- All but the bindings is a matter of the tree and of the variables of the procedures. -/
theorem frames (introduced : state.Introduced around old start seen) (frames : state.Frames after)
    {later : List Place} (bound : ∀ place ∈ later, around.declaresAt start place → ∀ text method,
      place.node.nameText? = some text → place.method?.map Node.id = some method →
        ∃ id, state.local? method text = some id ∧
          after.notes.binding? place.node.id = some (.localVar id)) :
    after.Introduced around old start later := by
  have has := frames.hasImplicit
  have locals := frames.local?
  refine ⟨frames.root ▸ introduced.names, fun method name => ?_, fun taken => ?_, fun known => ?_,
    fun taken => ?_, fun known => ?_, fun place listed unknown text method isText inMethod => ?_⟩
  · rw [frames.bodies]
    exact introduced.params method name
  · rw [locals]
    exact introduced.kept taken
  · rw [has] at known
    rw [locals]
    exact introduced.held known
  · rw [locals] at taken
    rw [has]
    exact introduced.known taken
  · rw [has] at known
    exact introduced.asked known
  · rw [locals]
    exact bound place listed unknown text method isText inMethod

theorem declaresAt_start (introduced : state.Introduced around old start seen)
    (needed : around.declaresAt state.bodies place) : around.declaresAt start place := by
  refine Bool.not_eq_false _ ▸ fun known => ?_
  have grows (method : NodeId) (name : String)
      (found : (start[method]?.bind (Surroundings.bodyBinding? · name)).isSome) :
      (state.bodies[method]?.bind (Surroundings.bodyBinding? · name)).isSome := by
    obtain ⟨binding, isBinding⟩ := Option.isSome_iff_exists.1 found
    obtain ⟨scope, listed, isBinding⟩ := Option.bind_eq_some_iff.1 isBinding
    have body {found : NodeId} (taken : start[method]?.bind (·.local? name) = some found ∨
        start[method]?.bind (·.param? name) = some found) :
        (state.bodies[method]?.bind (Surroundings.bodyBinding? · name)).isSome := by
      rw [← introduced.params] at taken
      rcases taken with isLocal | isParam
      · obtain ⟨later, listed, isLocal⟩ := Option.bind_eq_some_iff.1 (introduced.kept isLocal)
        simp [listed, Surroundings.bodyBinding?, isLocal]
      · obtain ⟨later, listed, isParam⟩ := Option.bind_eq_some_iff.1 isParam
        simp [listed, Surroundings.bodyBinding?, isParam]
    rcases Option.or_eq_some_iff.1 isBinding with isLocal | ⟨_, isParam⟩
    · obtain ⟨id, isLocal, _⟩ := Option.map_eq_some_iff.1 isLocal
      exact body (.inl (Option.bind_eq_some_iff.2 ⟨scope, listed, isLocal⟩))
    · obtain ⟨id, isParam, _⟩ := Option.map_eq_some_iff.1 isParam
      exact body (.inr (Option.bind_eq_some_iff.2 ⟨scope, listed, isParam⟩))
  rw [Surroundings.declaresAt_mono grows known] at needed
  cases needed

theorem declare (introduced : state.Introduced around old start seen)
    (distinct : state.root.Distinct) (layers : state.root.InLayers)
    (inside : place ∈ state.root.placesUp) (needed : around.declaresAt state.bodies place)
    {text : String} {method id : NodeId} (isText : place.node.nameText? = some text)
    (inMethod : place.method?.map Node.id = some method)
    (taken : state.declare place text = (some id, after)) :
    after.Introduced around old start seen ∧ after.local? method text = some id ∧
      after.root = state.root ∧ after.notes = state.notes := by
  have unknown := introduced.declaresAt_start needed
  have free : state.local? method text = none := by
    obtain ⟨spelt, isSpelt, none', -⟩ := Surroundings.declaresAt_iff.1 needed
    obtain rfl := Option.some.inj (isText.symm.trans isSpelt)
    rw [introduced.find?_eq unknown isText inMethod] at none'
    exact Option.map_eq_none_iff.1 none'
  have locals := local?_declare taken inMethod free
  have has := hasImplicit_declare distinct layers inside inMethod taken
  have params := param?_declare taken
  obtain ⟨root, notes⟩ : after.root = state.root ∧ after.notes = state.notes := by
    obtain ⟨_, _, _, _, -, rfl⟩ := declare_eq_some taken
    exact ⟨rfl, rfl⟩
  have grown {owner found : NodeId} {other : String}
      (known : state.local? owner other = some found) : after.local? owner other = some found := by
    rw [locals, if_neg, known]
    rintro ⟨rfl, same⟩
    unfold ResolutionState.local? LocalScope.local? at free known
    rw [same, free] at known
    exact nomatch known
  refine ⟨⟨root ▸ introduced.names, fun method name => ?_, fun known => grown (introduced.kept known),
    fun known => ?_, fun {owner found other} known => ?_, fun known => ?_,
    fun place listed unknown text method isText inMethod => ?_⟩, ?_, root, notes⟩
  · rw [params, introduced.params]
  · rcases (has _ _ _).1 known with before | ⟨rfl, rfl, rfl⟩
    · exact grown (introduced.held before)
    · rw [locals, if_pos ⟨rfl, rfl⟩]
  · rw [locals] at known
    split at known
    · rename_i same
      obtain rfl := Option.some.inj known
      exact .inr ⟨text, same.2.symm, (has ..).2 (.inr ⟨rfl, rfl, same.1⟩)⟩
    · rcases introduced.known known with before | ⟨spelt, same, before⟩
      · exact .inl before
      · exact .inr ⟨spelt, same, (has ..).2 (.inl before)⟩
  · rcases (has _ _ _).1 known with before | ⟨rfl, rfl, rfl⟩
    · exact introduced.asked before
    · obtain ⟨other, among, same⟩ := introduced.names.known place inside (by rw [isText]; rfl)
      exact ⟨other, among, (same.declaresAt start).symm.trans unknown, same.text.symm.trans isText,
        same.method.symm.trans inMethod⟩
  · obtain ⟨found, known, noted⟩ := introduced.bound place listed unknown text method isText inMethod
    exact ⟨found, grown known, notes ▸ noted⟩
  · rw [locals, if_pos ⟨rfl, rfl⟩]

theorem exists_local? (introduced : state.Introduced around old start seen)
    (unknown : around.declaresAt start place) (needed : around.declaresAt state.bodies place = false)
    {text : String} {method : NodeId} (isText : place.node.nameText? = some text)
    (inMethod : place.method?.map Node.id = some method) :
    ∃ id, state.local? method text = some id ∧
      around.find? state.bodies place text = some (.localVar id) := by
  have found := introduced.find?_eq unknown isText inMethod
  have isSome : (around.find? state.bodies place text).isSome := by
    obtain ⟨_, _, _, explicit, mayDeclare, isSome⟩ := Surroundings.declaresAt_iff.1 unknown
    rcases Surroundings.declaresAt_eq_false_iff.1 needed text isText with known | known | known |
      known
    · exact known
    · rw [explicit] at known
      exact nomatch known
    · rw [mayDeclare] at known
      exact nomatch known
    · rw [known] at isSome
      exact nomatch isSome
  rw [found, Option.isSome_map] at isSome
  obtain ⟨id, known⟩ := Option.isSome_iff_exists.1 isSome
  rw [known] at found
  exact ⟨id, known, found⟩

theorem visit (introduced : state.Introduced around old start seen) (fits : state.Fits around roles)
    (static : around.Fits roles bound) (older : bound ≤ state.fresh) (layers : state.root.InLayers)
    (final : Bool) (inside : place ∈ state.root.placesUp)
    (among : ∀ other ∈ seen, other ∈ state.root.placesUp) :
    (around.sweepNode final state place).Introduced around old start (seen ++ [place]) := by
  obtain ⟨typed, charges⟩ : ∃ typed, Charges around state _ place typed :=
    visit_charges final place state
  have root := (fits.visit final static older inside).2.root
  have here {other : Place} (listed : other ∈ seen ++ [place]) :
      other = place ∨ other ∈ seen ∧ place.node.id ≠ other.node.id := by
    have placed : other ∈ state.root.placesUp := by
      rcases List.mem_append.1 listed with before | last
      · exact among other before
      · rwa [List.mem_singleton.1 last]
    by_cases same : other.node.id = place.node.id
    · exact .inl (fits.tree.distinct.place_unique placed inside same)
    · refine .inr ⟨(List.mem_append.1 listed).resolve_right fun last => ?_, Ne.symm same⟩
      rw [List.mem_singleton.1 last] at same
      exact same rfl
  cases needed : around.declaresAt state.bodies place with
  | false =>
    have touches : Touches around roles (fun _ => True) place state
        (around.sweepNode final state place) :=
      .sweepNode fits static older inside final (fun _ _ => trivial) trivial
    obtain ⟨bodies, -, implicit⟩ := touches.undeclared needed
    refine introduced.frames ⟨root, bodies, implicit⟩ fun other listed unknown text method isText
      inMethod => ?_
    rcases here listed with rfl | ⟨before, differs⟩
    · obtain ⟨id, known, found⟩ := introduced.exists_local? unknown needed isText inMethod
      exact ⟨id, known, Surroundings.binding?_visit_name isText found final⟩
    · obtain ⟨id, known, noted⟩ := introduced.bound other before unknown text method isText inMethod
      refine ⟨id, known, ?_⟩
      rw [charges.bindings, if_neg differs]
      exact noted
  | true =>
    obtain ⟨⟨text, shape⟩, isSome⟩ := Surroundings.name_of_declaresAt needed
    have isText : place.node.nameText? = some text := by rw [Node.nameText?, shape]; rfl
    obtain ⟨method, isMethod⟩ := Option.isSome_iff_exists.1 isSome
    have inMethod : place.method?.map Node.id = some method.id := by rw [isMethod]; rfl
    obtain ⟨cache, warnings, id, middle, taken, visited⟩ :=
      Surroundings.sweepNode_of_declares needed final
    rw [isText] at taken
    have recorded : { state with cache, warnings }.Introduced around old start seen :=
      introduced.frames (show state.Frames { state with cache, warnings } from ⟨rfl, rfl, rfl⟩)
        introduced.bound
    obtain ⟨declared, known, sameRoot, notes⟩ :=
      recorded.declare fits.tree.distinct layers inside needed isText inMethod taken
    rw [visited]
    have noted : middle.Frames (around.noteJudgement place
        (.bound (.localVar id) (some (.deferred ⟨around.script, id⟩))) middle) :=
      noteJudgement_frames around place _ middle
    refine declared.frames noted fun other listed unknown text' method' isText' inMethod' => ?_
    rw [Surroundings.binding?_noteJudgement]
    rcases here listed with rfl | ⟨before, differs⟩
    · obtain rfl := Option.some.inj (isText.symm.trans isText')
      obtain rfl := Option.some.inj (inMethod.symm.trans inMethod')
      exact ⟨id, known, if_pos rfl⟩
    · rw [if_neg differs]
      exact declared.bound other before unknown text' method' isText' inMethod'

theorem walk (introduced : state.Introduced around old start seen) (fits : state.Fits around roles)
    (static : around.Fits roles bound) (older : bound ≤ state.fresh) (layers : state.root.InLayers)
    (final : Bool) {places : List Place} (inside : ∀ place ∈ places, place ∈ state.root.placesUp)
    (among : ∀ place ∈ seen, place ∈ state.root.placesUp) :
    (around.walk final places state).Introduced around old start (seen ++ places) := by
  induction places generalizing state seen with
  | nil => rwa [List.append_nil]
  | cons place rest ih =>
    have here := inside place List.mem_cons_self
    obtain ⟨nextFits, evolves⟩ := fits.visit final static older here
    have root := evolves.root
    have later := ih (introduced.visit fits static older layers final here among) nextFits
      (Nat.le_trans older evolves.fresh) (root ▸ layers)
      (evolves.inside_rest inside) fun other listed => by
        rw [root]
        rcases List.mem_append.1 listed with before | last
        · exact among other before
        · rwa [List.mem_singleton.1 last]
    rwa [List.append_assoc] at later

theorem settleImplicit (introduced : state.Introduced around old start seen)
    (fits : state.Fits around roles) (layers : state.root.InLayers)
    (all : ∀ place ∈ state.root.placesUp, place ∈ seen) :
    state.settleImplicit.Introduced around old start state.settleImplicit.root.placesUp := by
  rw [settleImplicit_eq]
  have bare := fun entry listed => (fits.implicit entry listed).2.2.1
  have locals := fun entry listed => (fits.implicit entry listed).2.2.2
  have settled {name : String} {id method : NodeId} :
      ResolutionState.HasImplicit { state with
        root := state.root.mapUp (declareIn state.implicit), implicit := [] } name id method ↔
        state.HasImplicit name id method := by
    rw [← hasImplicit_mapUp_declareIn bare layers.nested]
    refine or_iff_left ?_
    rintro ⟨_, absurd, _⟩
    cases absurd
  refine ⟨⟨fun before placed => ?_, fun place listed named => ?_⟩, introduced.params, introduced.kept,
    fun known => introduced.held (settled.1 known), fun known => ?_,
    fun known => introduced.asked (settled.1 known),
    fun place listed unknown text method isText inMethod => ?_⟩
  · obtain ⟨place, listed, same⟩ := introduced.names.kept before placed
    exact ⟨_, (declareIn_adds bare).mapUp_mem_placesUp listed, (Place.LooksUpAs.mapUp_declareIn _ place).trans same⟩
  · obtain ⟨middle, placed, same⟩ := looksUpAs_of_mapUp_declareIn around bare locals listed named
    obtain ⟨before, origin, earlier⟩ :=
      introduced.names.known middle placed (by rwa [← same.text])
    exact ⟨before, origin, same.trans earlier⟩
  · refine (introduced.known known).imp_right ?_
    rintro ⟨spelt, same, before⟩
    exact ⟨spelt, same, settled.2 before⟩
  · obtain ⟨before, placed, same⟩ :=
      looksUpAs_of_mapUp_declareIn around bare locals listed (by rw [isText]; rfl)
    rw [same.declaresAt] at unknown
    obtain ⟨id, known, noted⟩ := introduced.bound before (all before placed) unknown text method
      (same.text ▸ isText) (same.method ▸ inMethod)
    exact ⟨id, known, same.id ▸ noted⟩

theorem sweep {grown : Node} (introduced : state.Introduced around old start seen)
    (fits : state.Fits around roles) (keeps : state.Keeps roles grown)
    (static : around.Fits roles bound) (older : bound ≤ state.fresh) (final : Bool) :
    (around.sweep final state).Introduced around old start (around.sweep final state).root.placesUp := by
  have started : { state with changed := false }.Introduced around old start [] :=
    introduced.frames (show state.Frames { state with changed := false } from ⟨rfl, rfl, rfl⟩) nofun
  have startedFits := fits.record state.cache state.warnings state.obligations false
  have layers := keeps.houses.layers
  have walked := started.walk startedFits static older layers final (fun _ listed => listed) nofun
  obtain ⟨walkedFits, evolves⟩ := startedFits.walk final static older fun _ listed => listed
  have root : (around.walk final state.root.placesUp { state with changed := false }).root =
      state.root := evolves.root
  refine walked.settleImplicit walkedFits (by rw [root]; exact layers) fun place listed => ?_
  rw [root] at listed
  exact listed

theorem sweeps {grown : Node} (introduced : state.Introduced around old start [])
    (underway : state.Underway around roles bound) (keeps : state.Keeps roles grown)
    (static : around.Fits roles bound) (attempts : Nat) :
    (around.sweeps attempts state).2.Introduced around old start [] := by
  refine keeps.sweeps_induction underway static (motive := (·.Introduced around old start []))
    introduced ?_ attempts
  intro before keeps underway introduced
  have swept := introduced.sweep underway.fits keeps static underway.older false
  exact swept.frames ⟨rfl, rfl, rfl⟩ nofun

end Introduced

end ResolutionState

end Visits

section Settle

variable {around : Surroundings} {state : ResolutionState} {roles : NodeId → Role} {old : Node}

theorem Surroundings.hasImplicit_settle (draft : Draft) (layers : state.root.InLayers)
    (knows : around.KnowsOuter) {name : String} {id method : NodeId} :
    (around.settle draft state).root.HasImplicit name id method ↔
      state.root.HasImplicit name id method := by
  have marks := Obligation.apply_adds state.obligations
  have pays : Node.Adds (around.payFields (around.undeferred draft state)) _ := payFields_adds
  have shows := Node.withVisibility_adds
  have none' (node : Node) : ∀ leaf ∈ ([] : List Node),
      node.shape.family.holds leaf.shape.family := fun _ absurd => nomatch absurd
  have fits (node leaf : Node) (found : leaf ∈ around.paidFields (around.undeferred draft state) node) :
      node.shape.family.holds leaf.shape.family := by
    obtain ⟨entry, listed, rfl⟩ := List.mem_map.1 found
    have isType := (newFields_cases knows listed).1
    rw [Shape.isType_eq, beq_iff_eq] at isType
    rw [isType]
    rfl
  have byMarks (node : Node) : (Obligation.apply state.obligations node).shape.implicitName? =
      node.shape.implicitName? :=
    Obligation.read_apply _ _ (fun _ _ => rfl) (fun _ _ _ => rfl) (fun _ _ _ => rfl) fun _ _ _ => rfl
  have byPays (node : Node) : (around.payFields (around.undeferred draft state)
      node).shape.implicitName? = node.shape.implicitName? := read_payFields (fun _ _ => rfl) node
  have byShows (node : Node) : node.withVisibility.shape.implicitName? =
      node.shape.implicitName? :=
    Node.read_withVisibility _ (fun _ _ => rfl) (fun _ _ => rfl) (fun _ _ => rfl) fun _ _ => rfl
  have marked := layers.mapUp marks none'
  rw [root_settle]
  constructor
  · intro has
    rcases has.of_mapUp shows byShows with has | ⟨_, _, _, _, leaf, _⟩
    · rcases has.of_mapUp pays byPays with has | ⟨_, type, _, _, leaf, named, _⟩
      · rcases has.of_mapUp marks byMarks with has | ⟨_, _, _, _, leaf, _⟩
        · exact has
        · exact nomatch leaf
      · obtain ⟨entry, _, rfl⟩ := List.mem_map.1 leaf
        exact nomatch named
    · exact nomatch leaf
  · intro has
    exact ((has.mapUp marks byMarks layers.nested).mapUp pays byPays marked.nested).mapUp shows byShows
      (marked.mapUp pays fits).nested

theorem ResolutionState.hasImplicit_of_settled {draft : Draft} {place : Place}
    (listed : place ∈ (around.settle draft state).root.placesUp)
    (houses : (around.settle draft state).root.InLayers) (layers : state.root.InLayers)
    (isType : state.root.shape.isType) (knows : around.KnowsOuter) {name : String}
    (named : place.node.shape.implicitName? = some name) :
    ∃ method, place.method?.map Node.id = some method ∧
      state.HasImplicit name place.node.id method := by
  have settledType : (around.settle draft state).root.shape.isType := by
    rw [Shape.isType_eq, Surroundings.root_settle, Node.withVisibility_adds.family_mapUp,
      Surroundings.payFields_adds.family_mapUp, (Obligation.apply_adds _).family_mapUp,
      ← Shape.isType_eq]
    exact isType
  have stands := Node.stands_of_place (Node.mem_places_iff.2 listed)
  obtain ⟨method, inMethod⟩ := Option.isSome_iff_exists.1 (stands.inMethod houses settledType
    (.inr (.inr (Shape.family_of_implicitName? named))))
  exact ⟨method, inMethod, .inl ((Surroundings.hasImplicit_settle draft layers knows).1
    ⟨_, _, stands, named, rfl, inMethod⟩)⟩

namespace ResolutionState.Introduced

variable {start : Std.HashMap NodeId LocalScope} {seen : List Place}

theorem same_id (introduced : state.Introduced around old start seen) {name name' : String}
    {id id' method : NodeId} (has : state.HasImplicit name id method)
    (has' : state.HasImplicit name' id' method) (same : sameName name name') : id = id' := by
  have found := introduced.held has
  have found' := introduced.held has'
  unfold ResolutionState.local? LocalScope.local? at found found'
  rw [eq_of_beq same] at found
  exact Option.some.inj (found.symm.trans found')

/-- What could be found in a procedure at the start is not declared in it. -/
theorem find?_eq_none (introduced : state.Introduced around old start seen) (distinct : old.Distinct)
    {name text : String} {id method : NodeId} (has : state.HasImplicit name id method)
    (same : sameName text name) {place : Place} (placed : place ∈ old.placesUp)
    (inMethod : place.method?.map Node.id = some method) :
    around.find? start place text = none := by
  obtain ⟨target, placed', unknown, isName, inMethod'⟩ := introduced.asked has
  obtain ⟨spelt, isSpelt, none', -, mayDeclare, -⟩ := Surroundings.declaresAt_iff.1 unknown
  obtain rfl := Option.some.inj (isName.symm.trans isSpelt)
  have sameMethod : place.method? = target.method? :=
    Node.method?_eq distinct (Node.mem_places_iff.2 placed) (Node.mem_places_iff.2 placed')
      (inMethod.trans inMethod'.symm)
  obtain ⟨node, isNode, -⟩ := Option.map_eq_some_iff.1 inMethod'
  exact Surroundings.find?_eq_none_of_target none' mayDeclare (eq_of_beq same) sameMethod
    (Place.types_eq_of_method? distinct placed placed' (sameMethod.trans isNode) isNode)

theorem exists_variable (introduced : state.Introduced around old start state.root.placesUp)
    (clear : state.implicit = []) {target : Place} (placed : target ∈ old.placesUp)
    (needed : around.declaresAt start target) {text : String}
    (isText : target.node.nameText? = some text) {method : Node}
    (isMethod : target.method? = some method) :
    ∃ spelt id, sameName spelt text ∧ state.root.HasImplicit spelt id method.id ∧
      state.notes.binding? target.node.id = some (.localVar id) := by
  obtain ⟨place, placed', same⟩ := introduced.names.kept target placed
  have inMethod : place.method?.map Node.id = some method.id := by
    rw [same.method, isMethod]
    rfl
  obtain ⟨id, known, noted⟩ := introduced.bound place placed'
    ((same.declaresAt _).trans needed) text method.id (same.text.trans isText) inMethod
  obtain ⟨spelt, sameText, has⟩ : ∃ spelt, FoldedName.of spelt = .of text ∧
      state.HasImplicit spelt id method.id := by
    refine (introduced.known known).resolve_left fun before => ?_
    obtain ⟨scope, isScope, isLocal⟩ := Option.bind_eq_some_iff.1 before
    obtain ⟨spelt, isSpelt, unknown, -⟩ := Surroundings.declaresAt_iff.1 needed
    obtain rfl := Option.some.inj (isText.symm.trans isSpelt)
    rw [Surroundings.find?] at unknown
    simp [isMethod, isScope, Surroundings.bodyBinding?, isLocal] at unknown
  refine ⟨spelt, id, beq_iff_eq.2 sameText, has.resolve_right ?_, same.id ▸ noted⟩
  rintro ⟨entry, listed, -⟩
  rw [clear] at listed
  cases listed

theorem introduces {draft : Draft} (distinct : draft.root.Distinct)
    (introduced : state.Introduced around draft.root (ScopeIndex.ofTree draft.root).bodies
      state.root.placesUp)
    (fits : state.Fits around roles) (keeps : state.Keeps roles old) (clear : state.implicit = [])
    (isType : state.root.shape.isType) (knows : around.KnowsOuter)
    (explicit : around.explicit = draft.explicit) :
    draft.Introduces around (around.settle draft state) := by
  have layers := keeps.houses.layers
  obtain ⟨grounded, houses⟩ := keeps.settle fits knows draft
  have has {place : Place} (listed : place ∈ (around.settle draft state).root.placesUp) {name : String}
      (named : place.node.shape.implicitName? = some name) :=
    hasImplicit_of_settled listed houses.layers layers isType knows named
  refine ⟨fun place listed other listed' name name' named named' same inMethod => ?_,
    fun place listed name named => ?_, fun place listed name named other placed text isText same
      inMethod => ?_, fun undeclared target placed text isText isTarget isSome unknown => ?_,
    fun isExplicit node inside => ?_⟩
  · obtain ⟨method, isMethod, known⟩ := has listed named
    obtain ⟨method', isMethod', known'⟩ := has listed' named'
    obtain rfl := Option.some.inj (isMethod.symm.trans (inMethod.trans isMethod'))
    exact grounded.distinct.place_unique listed listed' (introduced.same_id known known' same)
  · obtain ⟨method, isMethod, known⟩ := has listed named
    obtain ⟨target, placed, unknown, isText, inMethod⟩ := introduced.asked known
    obtain ⟨_, -, -, -, mayDeclare, -⟩ := Surroundings.declaresAt_iff.1 unknown
    refine ⟨target, placed, isText, (Typing.mayDeclare_iff target).1 mayDeclare, ?_,
      inMethod.trans isMethod.symm⟩
    rw [← Option.isSome_map (f := Node.id), isMethod]
    rfl
  · obtain ⟨method, isMethod, known⟩ := has listed named
    exact introduced.find?_eq_none distinct known same placed (inMethod.trans isMethod)
  · have needed : around.declaresAt (ScopeIndex.ofTree draft.root).bodies target :=
      Surroundings.declaresAt_iff.2 ⟨text, isText, unknown, explicit.trans undeclared,
        (Typing.mayDeclare_iff target).2 isTarget, isSome⟩
    obtain ⟨method, isMethod⟩ := Option.isSome_iff_exists.1 isSome
    obtain ⟨spelt, id, same, inTree, noted⟩ :=
      introduced.exists_variable clear placed needed isText isMethod
    obtain ⟨setting, node, stands, named, rfl, isIn⟩ :=
      (Surroundings.hasImplicit_settle draft layers knows).2 inTree
    obtain ⟨found, listed, rfl, rfl⟩ := stands.exists_place
    refine ⟨found, Node.mem_places_iff.1 listed, spelt, named, same, ?_,
      (Surroundings.binding?_settle _).trans noted⟩
    rw [isMethod]
    exact isIn
  · obtain ⟨place, listed, rfl⟩ := Node.exists_mem_placesUp inside
    refine Option.eq_none_iff_forall_ne_some.2 fun name named => ?_
    obtain ⟨method, -, known⟩ := has listed named
    obtain ⟨target, -, unknown, -⟩ := introduced.asked known
    obtain ⟨-, -, -, undeclared, -⟩ := Surroundings.declaresAt_iff.1 unknown
    rw [explicit, isExplicit] at undeclared
    cases undeclared

end ResolutionState.Introduced

end Settle

section Resolve

variable {symbols : SymbolTable} {options : MigrationOptions} {store : ScriptStore}
  {id : ScriptId} {script : Script} {draft : Draft}

theorem Draft.Prepared.start_introduced (prepared : draft.Prepared) (cache : MemberMemo) :
    ((Surroundings.forScript symbols options store id script draft).start draft cache).Introduced
      (Surroundings.forScript symbols options store id script draft) draft.root
      (ScopeIndex.ofTree draft.root).bodies [] := by
  have none' {name : String} {variable' method : NodeId} :
      ¬((Surroundings.forScript symbols options store id script draft).start draft
        cache).HasImplicit name variable' method := by
    rintro (⟨setting, node, stands, named, -⟩ | ⟨_, listed, -⟩)
    · have written := (prepared.asRead node stands.mem).written
      cases shape : node.shape with
      | localVar decl =>
        rw [shape] at written named
        have source : decl.origin = .source := eq_of_beq written
        simp [Shape.implicitName?, source] at named
      | _ =>
        rw [shape] at named
        exact nomatch named
    · exact nomatch listed
  exact ⟨⟨fun place listed => ⟨place, listed, .refl place⟩, fun place listed _ =>
    ⟨place, listed, .refl place⟩⟩, fun _ _ => rfl, fun known => known, fun known => absurd known none',
    fun known => .inl known, fun known => absurd known none', nofun⟩

/-- Resolving a script gives variables to the names that are given values and stand for nothing: one for
each name in a procedure, however it is spelled, and all these names are bound to it. -/
theorem ScriptStore.resolve_introduces (symbols : SymbolTable) (options : MigrationOptions)
    (cache : MemberMemo) (listed : store.get? id = some script)
    (read : script.draft? = some draft) (prepared : draft.Prepared) :
    ∃ resolved, (store.resolve symbols options cache id).store.draft? id = some resolved ∧
      draft.Introduces (.forScript symbols options store id script draft) resolved := by
  have formed := prepared.formed
  have static : (Surroundings.forScript symbols options store id script draft).Fits
      draft.root.roleOf draft.fresh := formed.surroundings_fit
  have underway : ((Surroundings.forScript symbols options store id script draft).start draft
      cache).Underway _ _ _ := formed.start_underway cache
  have starts : ((Surroundings.forScript symbols options store id script draft).start draft
      cache).Keeps _ _ := prepared.start_keeps cache
  have introduced := (prepared.start_introduced cache).sweeps underway starts static
    options.maxAttempts
  have accounts := (prepared.start_accounts cache).sweeps underway starts static options.maxAttempts
  have later := (underway.sweeps static options.maxAttempts).1
  have keeps := starts.sweeps underway static options.maxAttempts
  have swept := introduced.sweep later.fits keeps static later.older true
  have last := later.sweep static true
  have isType := (accounts.sweep later.fits keeps static later.older true).mirrors.isType
  refine ⟨_, by rw [(resolve_eq symbols options cache listed read).1]; exact draft?_setDraft listed,
    ?_⟩
  exact swept.introduces formed.distinct last.fits (keeps.sweep later.fits static later.older true)
    last.clear isType formed.knowsOuter rfl

theorem ScriptStore.resolve_introduces_loop : ∃ module resolved script,
    parseModule "Sub Work()\nSum = 0\nFor n = 1 To 9\nsum = SUM + n\nNext\nEnd Sub" "Test" = .ok module ∧
    (ScriptStore.alone module).get? ⟨0⟩ = some script ∧
    ((ScriptStore.alone module).resolve .empty {} (.withCapacity 8) ⟨0⟩).store.draft? ⟨0⟩ =
      some resolved ∧
    (Draft.ofModule module).Introduces (.forScript .empty {} (.alone module) ⟨0⟩ script
      (.ofModule module)) resolved := by
  obtain ⟨module, parsed⟩ : ∃ module, parseModule
      "Sub Work()\nSum = 0\nFor n = 1 To 9\nsum = SUM + n\nNext\nEnd Sub" "Test" = .ok module :=
    exists_module (by decide +kernel)
  have prepared : (Draft.ofModule module).Prepared := .read parsed
  obtain ⟨resolved, found, introduces⟩ := ScriptStore.resolve_introduces .empty {} (.withCapacity 8)
    (show (ScriptStore.alone module).get? ⟨0⟩ = some _ from rfl) rfl prepared
  exact ⟨module, resolved, _, parsed, rfl, found, introduces⟩

end Resolve

end ScriptMigration
