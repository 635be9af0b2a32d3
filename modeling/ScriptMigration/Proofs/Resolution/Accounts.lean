import ScriptMigration.Proofs.Draft.Prepared
import ScriptMigration.Proofs.Resolution.Reporting

/-! What types come to owe while a script is resolved. A visit binds its node by one judgement, and
the types around the node owe what this asks of them; nothing that is owed is ever forgotten, and no
types come to the tree, so after each sweep all that is bound in the tree is accounted for. -/
namespace ScriptMigration

section Visit

variable {around : Surroundings} {place : Place} {state after : ResolutionState}
  {typed : Judgement} {final : Bool}

namespace ResolutionState

variable (state)

@[simp] theorem obligations_describe (id : NodeId) (descriptor : Descriptor) :
    (state.describe id descriptor).obligations = state.obligations := by
  rcases state.describe_cases id descriptor with ⟨_, same⟩ | ⟨_, new⟩
  · rw [same]
  · rw [new]

@[simp] theorem obligations_bind (id : NodeId) (binding : Binding) :
    (state.bind id binding).obligations = state.obligations := by
  rcases state.bind_cases id binding with ⟨_, same⟩ | ⟨_, new⟩
  · rw [same]
  · rw [new]

@[simp] theorem obligations_decide (id : NodeId) (mode : LogicalMode) :
    (state.decide id mode).obligations = state.obligations := by
  rcases state.decide_cases id mode with ⟨_, same⟩ | ⟨_, new⟩
  · rw [same]
  · rw [new]

theorem mem_obligations_oblige {obligation owed : Obligation} :
    owed ∈ (state.oblige obligation).obligations ↔
      owed ∈ state.obligations ∨ owed = obligation := by
  rw [oblige, Std.HashSet.mem_insert, beq_iff_eq, or_comm, eq_comm]

theorem mem_obligations_foldl {obligations : List Obligation} {owed : Obligation} :
    owed ∈ (obligations.foldl .oblige state).obligations ↔
      owed ∈ state.obligations ∨ owed ∈ obligations := by
  induction obligations generalizing state with
  | nil => simp
  | cons first rest ih =>
    rw [List.foldl_cons, ih, mem_obligations_oblige, List.mem_cons, or_assoc]

end ResolutionState

namespace Surroundings

inductive Owes (around : Surroundings) (place : Place) (typed : Judgement) : Obligation → Prop where
  | binding {binding : Binding} {owed : Obligation} (bound : typed.binding = some binding)
      (listed : owed ∈ around.obligationsOf place binding) : Owes around place typed owed
  | missing {type : Node} (omitted : isMissing place.node) (isType : place.type? = some type) :
      Owes around place typed (.missing type.id)

theorem mem_obligations_noteJudgement {owed : Obligation} (state : ResolutionState) :
    owed ∈ (around.noteJudgement place typed state).obligations ↔
      owed ∈ state.obligations ∨ around.Owes place typed owed := by
  unfold noteJudgement
  dsimp only
  have decided : (typed.mode.elim state (state.decide place.node.id)).obligations =
      state.obligations := by
    cases typed.mode <;> simp
  generalize typed.mode.elim state (state.decide place.node.id) = first at decided ⊢
  have bound : owed ∈ (typed.binding.elim first fun binding =>
        ((around.obligationsOf place binding).foldl .oblige first).bind place.node.id
          binding).obligations ↔
      owed ∈ state.obligations ∨
        ∃ binding, typed.binding = some binding ∧ owed ∈ around.obligationsOf place binding := by
    cases typed.binding with
    | none => simp [decided]
    | some binding => simp [ResolutionState.mem_obligations_foldl, decided]
  generalize (typed.binding.elim first fun binding =>
    ((around.obligationsOf place binding).foldl .oblige first).bind place.node.id binding) =
      second at bound ⊢
  have omitted : owed ∈ (if isMissing place.node then
        place.type?.elim second fun type => second.oblige (.missing type.id)
        else second).obligations ↔
      owed ∈ second.obligations ∨
        isMissing place.node ∧ ∃ type, place.type? = some type ∧ owed = .missing type.id := by
    split
    · rename_i isMissing
      cases place.type? <;> simp [ResolutionState.mem_obligations_oblige, isMissing]
    · rename_i other
      simp [other]
  generalize (if isMissing place.node then
    place.type?.elim second fun type => second.oblige (.missing type.id) else second) = third
      at omitted ⊢
  have described : (typed.descriptor.elim third (third.describe place.node.id)).obligations =
      third.obligations := by
    cases typed.descriptor <;> simp
  rw [described, omitted, bound, or_assoc]
  refine or_congr_right ⟨?_, ?_⟩
  · rintro (⟨binding, isBound, listed⟩ | ⟨isMissing, type, isType, rfl⟩)
    · exact .binding isBound listed
    · exact .missing isMissing isType
  · rintro (⟨isBound, listed⟩ | ⟨isMissing, isType⟩)
    · exact .inl ⟨_, isBound, listed⟩
    · exact .inr ⟨isMissing, _, isType, rfl⟩

def FindsAround (around : Surroundings) (place : Place) (decl : DeclRef) : Prop :=
  decl.script = around.script ∧ ∃ type ∈ place.types, ∃ name member,
    around.types[type.id]?.bind (·.find? name) = some member ∧ member.id = decl.node

theorem typed_outer {notes : Notes} {bodies : Std.HashMap NodeId LocalScope} {cache : MemberMemo}
    {decl : DeclRef}
    (found : (around.typed final notes bodies cache place).1.binding = some (.outer decl)) :
    around.FindsAround place decl := by
  generalize isBound : Binding.outer decl = binding at found
  obtain ⟨_, -, binds⟩ := typed_binds final notes cache found
  cases binds with
  | @name text _ _ taken =>
    subst isBound
    cases find?_eq_some taken with
    | outer listed isMember =>
      obtain ⟨type, isType, rfl⟩ := List.mem_map.1 listed
      exact ⟨rfl, type, isType, text, _, isMember, rfl⟩
  | unresolved => exact nomatch isBound
  | member _ finding =>
    -- a member of another object is bound to its declaration, and never as one around
    cases finding with
    | inScript =>
      unfold bindMember at isBound
      split at isBound <;> exact nomatch isBound
    | late | external | formMember => exact nomatch isBound

end Surroundings

namespace ResolutionState

/-- What a visit does to the bindings and the obligations: it binds the node by a judgement, and adds
what the types around it owe for that. -/
structure Charges (around : Surroundings) (state after : ResolutionState) (place : Place)
    (typed : Judgement) : Prop where
  bindings : ∀ id, after.notes.binding? id =
    if place.node.id = id then typed.binding.or (state.notes.binding? id)
    else state.notes.binding? id
  obligations : ∀ owed, owed ∈ after.obligations ↔
    owed ∈ state.obligations ∨ around.Owes place typed owed
  outer : ∀ decl, typed.binding = some (.outer decl) → around.FindsAround place decl

theorem Charges.nothing (bindings : ∀ id, after.notes.binding? id = state.notes.binding? id)
    (obligations : after.obligations = state.obligations)
    (present : Surroundings.isMissing place.node = false) : Charges around state after place {} := by
  refine ⟨fun id => ?_, fun owed => ?_, nofun⟩
  · rw [bindings]
    split <;> rfl
  · rw [obligations]
    refine ⟨.inl, fun owes => owes.resolve_right ?_⟩
    rintro (⟨bound, _⟩ | ⟨omitted, _⟩)
    · exact nomatch bound
    · rw [present] at omitted
      exact nomatch omitted

theorem judgeExpression_charges (final : Bool) (place : Place) (state : ResolutionState) :
    ∃ typed, Charges around state (around.judgeExpression final place state) place typed := by
  have noted {before : ResolutionState} {typed : Judgement} (notes : before.notes = state.notes)
      (obligations : before.obligations = state.obligations)
      (outer : ∀ decl, typed.binding = some (.outer decl) → around.FindsAround place decl) :
      Charges around state (around.noteJudgement place typed before) place typed :=
    ⟨fun id => by rw [Surroundings.binding?_noteJudgement, notes],
      fun owed => by rw [Surroundings.mem_obligations_noteJudgement, obligations], outer⟩
  rcases around.judgeExpression_cases final place state with same | ⟨_, id, after, taken, same⟩
  · rw [same]
    exact ⟨_, noted rfl rfl fun _ => Surroundings.typed_outer⟩
  · rw [same]
    obtain ⟨_, _, _, _, -, rfl⟩ := declare_eq_some taken
    exact ⟨_, noted rfl rfl nofun⟩

theorem visit_charges (final : Bool) (place : Place) (state : ResolutionState) :
    ∃ typed, Charges around state (around.sweepNode final state place) place typed := by
  have judged : ∃ typed, Charges around state (around.judge final place state) place typed := by
    unfold Surroundings.judge
    split
    · rename_i decl shape
      have quiet : state.Redescribes (around.sweepProperty final place.node.id decl state) :=
        .sweepProperty state final _ decl
      exact ⟨_, .nothing quiet.bindings quiet.obligations (by rw [Surroundings.isMissing, shape])⟩
    · split
      · exact judgeExpression_charges final place state
      · rename_i isNone
        refine ⟨_, .nothing (fun _ => rfl) rfl ?_⟩
        unfold Surroundings.isMissing
        split
        · rename_i shape
          rw [shape] at isNone
          exact absurd rfl isNone
        · rfl
  obtain ⟨typed, charges⟩ := judged
  have further := sweepNode_redescribes around final place state
  refine ⟨typed, fun id => ?_, fun owed => ?_, charges.outer⟩
  · rw [further.bindings, charges.bindings]
  · rw [further.obligations, charges.obligations]

end ResolutionState

end Visit

section Sweeps

variable {around : Surroundings} {roles : NodeId → Role} {bound : Nat} {place : Place}
  {state : ResolutionState} {seen : List Place}

namespace Surroundings

open ResolutionState (declareIn)

theorem children_mapUp_declareIn {implicit : List ImplicitLocal} {node : Node}
    (bare : ∀ entry ∈ implicit, entry.decl.children = []) (isType : node.shape.isType) :
    (node.mapUp (declareIn implicit)).children.map Node.id = node.children.map Node.id := by
  have adds := ResolutionState.declareIn_adds bare
  have family : node.shape.family ≠ .block := by
    rw [Shape.isType_eq, beq_iff_eq] at isType
    rw [isType]
    decide
  rw [adds.children_mapUp, ResolutionState.leavesOf, if_neg (by rwa [Node.family_rebuilt]),
    List.nil_append, List.map_map]
  exact List.map_congr_left fun part _ => adds.id_mapUp part

theorem obligationsOf_mapUp_declareIn {implicit : List ImplicitLocal}
    (bare : ∀ entry ∈ implicit, entry.decl.children = []) (place : Place) (binding : Binding) :
    around.obligationsOf (place.mapUp (declareIn implicit)) binding =
      around.obligationsOf place binding := by
  have adds := ResolutionState.declareIn_adds bare
  have ids : Node.id ∘ Node.mapUp (declareIn implicit) = Node.id := funext adds.id_mapUp
  have kinds : (fun type : Node => type.shape.isType) ∘ Node.mapUp (declareIn implicit) =
      fun type => type.shape.isType := by
    funext type
    rw [Function.comp_apply, Shape.isType_eq, adds.family_mapUp, ← Shape.isType_eq]
  have inner (id : NodeId) : ((place.mapUp (declareIn implicit)).types.takeWhile fun type =>
        !type.children.any (·.id == id)).map Node.id =
      (place.types.takeWhile fun type => !type.children.any (·.id == id)).map Node.id := by
    have same : ((fun type : Node => !type.shape.isType || !type.children.any (·.id == id)) ∘
          Node.mapUp (declareIn implicit)) =
        fun type => !type.shape.isType || !type.children.any (·.id == id) := by
      funext type
      have declares (node : Node) : node.children.any (·.id == id) =
          (node.children.map Node.id).any (· == id) := by
        rw [List.any_map]
        rfl
      rw [Function.comp_apply, declares, declares, show (type.mapUp _).shape.isType = _ from
        congrFun kinds type]
      cases isType : type.shape.isType with
      | false => rfl
      | true => rw [children_mapUp_declareIn bare isType]
    -- Only the types among the nodes around the place keep their parts.
    rw [Place.types, Place.types, List.takeWhile_filter, List.takeWhile_filter,
      show (place.mapUp _).around = place.around.map _ from rfl, List.takeWhile_map, same,
      List.filter_map, kinds, List.map_map, ids]
  cases binding with
  | outer decl =>
    have split (types : List Node) : types.map (fun type => Obligation.outer type.id) =
        (types.map Node.id).map Obligation.outer := by rw [List.map_map]; rfl
    simp only [obligationsOf, split, inner]
  | form | formMember =>
    simp only [obligationsOf, Place.type?_mapUp adds]
    cases place.type? with
    | none => rfl
    | some type => simp [adds.id_mapUp]
  | _ => rfl

/-- The surroundings know the types of a tree, which is the body of one: what is around each, its name,
and the members that can be found in it. All but local variables is as a text can have it. -/
structure Mirrors (around : Surroundings) (root : Node) : Prop where
  isType : root.shape.isType
  outer : ∀ place ∈ root.placesUp, place.node.shape.isType →
    around.types[place.node.id]?.bind (·.outer) = place.type?.map Node.id
  named : ∀ node ∈ root.descendants, node.shape.isType →
    around.declDescriptor? ⟨around.script, node.id⟩ =
      node.declName?.map (.ofScript ⟨around.script, node.id⟩)
  member : ∀ node ∈ root.descendants, node.shape.isType → ∀ name member,
    around.types[node.id]?.bind (·.find? name) = some member → member.id ∈ node.children.map Node.id
  written : ∀ node ∈ root.descendants, node.shape.family ≠ .localVar → node.shape.isWritten

/-- Putting variables into bodies leaves the types as they are known. -/
theorem Mirrors.declareIn {root : Node} (mirrors : around.Mirrors root)
    {implicit : List ImplicitLocal} (bare : ∀ entry ∈ implicit, entry.decl.children = [])
    (locals : ∀ entry ∈ implicit, entry.decl.shape.family = .localVar) :
    around.Mirrors (root.mapUp (ResolutionState.declareIn implicit)) := by
  have adds := ResolutionState.declareIn_adds bare
  have isType (node : Node) : (node.mapUp (ResolutionState.declareIn implicit)).shape.isType =
      node.shape.isType := by
    rw [Shape.isType_eq, adds.family_mapUp, ← Shape.isType_eq]
  have origin {node : Node}
      (inside : node ∈ (root.mapUp (ResolutionState.declareIn implicit)).descendants)
      (differs : node.shape.family ≠ .localVar) :
      ∃ old ∈ root.descendants, node = old.mapUp (ResolutionState.declareIn implicit) := by
    obtain ⟨old, lies, same | found⟩ := adds.mem_descendants_mapUp.1 inside
    · exact ⟨old, lies, same⟩
    · obtain ⟨entry, listed, rfl, _⟩ := ResolutionState.mem_leavesOf found
      exact absurd (locals entry listed) differs
  have notLocal {node : Node} (kind : node.shape.isType) : node.shape.family ≠ .localVar := by
    rw [Shape.isType_eq, beq_iff_eq] at kind
    rw [kind]
    decide
  refine ⟨isType root ▸ mirrors.isType, fun place found kind => ?_, fun node inside kind => ?_,
    fun node inside kind name member found => ?_, fun node inside differs => ?_⟩
  · rcases adds.mem_placesUp_mapUp found with ⟨old, placed, rfl⟩ | ⟨_, _, made⟩
    · rw [Place.type?_mapUp adds, Option.map_map, show Node.id ∘ Node.mapUp _ = Node.id from
        funext adds.id_mapUp]
      have outer := mirrors.outer old placed (isType old.node ▸ kind)
      rw [← outer]
      exact congrArg (fun id => around.types[id]?.bind (·.outer)) (adds.id_mapUp old.node)
    · obtain ⟨entry, listed, same, _⟩ := ResolutionState.mem_leavesOf made
      exact absurd (same ▸ locals entry listed) (notLocal kind)
  · obtain ⟨old, lies, rfl⟩ := origin inside (notLocal kind)
    have known := mirrors.named old lies (isType old ▸ kind)
    have name : (old.mapUp (ResolutionState.declareIn implicit)).declName? = old.declName? := by
      rw [Node.declName?, ResolutionState.shape_mapUp_declareIn, Shape.declName?_mapParts]
      · rfl
      · rw [isType, Shape.isType_eq, beq_iff_eq] at kind
        rw [kind]
        decide
    rw [adds.id_mapUp, name]
    exact known
  · obtain ⟨old, lies, rfl⟩ := origin inside (notLocal kind)
    rw [isType] at kind
    rw [adds.id_mapUp] at found
    rw [children_mapUp_declareIn bare kind]
    exact mirrors.member old lies kind name member found
  · obtain ⟨old, lies, rfl⟩ := origin inside differs
    rw [adds.family_mapUp] at differs
    by_cases isBlock : old.shape.family = .block
    · obtain ⟨stmts, shape⟩ := (Shape.family_eq_block_iff _).1
        ((adds.family_mapUp old).trans isBlock)
      rw [shape]
      rfl
    · rw [ResolutionState.shape_mapUp_declareIn isBlock, Shape.isWritten_mapParts]
      exact mirrors.written old lies differs

end Surroundings

namespace ResolutionState

/-- What is bound at a place is accounted for: the types around it owe what they have to, and one of
them declares what is bound outside of its own type. -/
structure AccountsFor (state : ResolutionState) (around : Surroundings) (place : Place)
    (binding : Binding) : Prop where
  owed : ∀ owed ∈ around.obligationsOf place binding, owed ∈ state.obligations
  outer : ∀ decl, binding = .outer decl → around.FindsAround place decl

/-- All that is bound is accounted for, and so are the arguments that are left out at the places that
were seen. -/
structure Accounts (state : ResolutionState) (around : Surroundings) (seen : List Place) : Prop where
  mirrors : around.Mirrors state.root
  bound : ∀ place ∈ state.root.placesUp, ∀ binding,
    state.notes.binding? place.node.id = some binding → state.AccountsFor around place binding
  omitted : ∀ place ∈ seen, Surroundings.isMissing place.node → ∀ type, place.type? = some type →
    .missing type.id ∈ state.obligations

namespace Accounts

theorem visit (accounts : state.Accounts around seen) (fits : state.Fits around roles)
    (static : around.Fits roles bound) (older : bound ≤ state.fresh) (final : Bool)
    (inside : place ∈ state.root.placesUp) :
    (around.sweepNode final state place).Accounts around (seen ++ [place]) := by
  obtain ⟨typed, charges⟩ : ∃ typed, Charges around state _ place typed :=
    visit_charges final place state
  have root := (fits.visit final static older inside).2.root
  have kept {owed : Obligation} (known : owed ∈ state.obligations) :
      owed ∈ (around.sweepNode final state place).obligations :=
    (charges.obligations owed).2 (.inl known)
  refine ⟨root ▸ accounts.mirrors, fun other listed binding noted => ?_, fun other listed => ?_⟩
  · rw [root] at listed
    rw [charges.bindings] at noted
    have before (noted : state.notes.binding? other.node.id = some binding) :
        AccountsFor (around.sweepNode final state place) around other binding :=
      ⟨fun owed among => kept ((accounts.bound other listed binding noted).owed owed among),
        (accounts.bound other listed binding noted).outer⟩
    split at noted
    · rename_i same
      rcases Option.or_eq_some_iff.1 noted with here | ⟨_, noted⟩
      · obtain rfl := fits.tree.distinct.place_unique inside listed same
        refine ⟨fun owed among => (charges.obligations owed).2 (.inr (.binding here among)), ?_⟩
        rintro decl rfl
        exact charges.outer decl here
      · exact before noted
    · exact before noted
  · intro isMissing type isType
    rcases List.mem_append.1 listed with old | new
    · exact kept (accounts.omitted other old isMissing type isType)
    · obtain rfl := List.mem_singleton.1 new
      exact (charges.obligations _).2 (.inr (.missing isMissing isType))

theorem walk (accounts : state.Accounts around seen) (fits : state.Fits around roles)
    (static : around.Fits roles bound) (older : bound ≤ state.fresh) (final : Bool)
    {places : List Place} (inside : ∀ place ∈ places, place ∈ state.root.placesUp) :
    (around.walk final places state).Accounts around (seen ++ places) := by
  induction places generalizing state seen with
  | nil => rwa [List.append_nil]
  | cons place rest ih =>
    have here := inside place List.mem_cons_self
    obtain ⟨nextFits, evolves⟩ := fits.visit final static older here
    have later := ih (accounts.visit fits static older final here) nextFits
      (Nat.le_trans older evolves.fresh) (evolves.inside_rest inside)
    rwa [List.append_assoc] at later

theorem settleImplicit (accounts : state.Accounts around seen) (fits : state.Fits around roles)
    (binds : state.notes.BindsExpressions roles)
    (all : ∀ place ∈ state.root.placesUp, place ∈ seen) :
    state.settleImplicit.Accounts around state.settleImplicit.root.placesUp := by
  rw [settleImplicit_eq]
  have bare := fun entry listed => (fits.implicit entry listed).2.2.1
  have adds := declareIn_adds bare
  have locals := fun entry listed => (fits.implicit entry listed).2.2.2
  have origin {place : Place}
      (listed : place ∈ (state.root.mapUp (declareIn state.implicit)).placesUp)
      (kept : place.node.shape.family ≠ .localVar ∨
        (state.notes.binding? place.node.id).isSome) :
      ∃ old ∈ state.root.placesUp, place = old.mapUp (declareIn state.implicit) := by
    rcases adds.mem_placesUp_mapUp listed with found | ⟨_, _, made⟩
    · exact found
    · obtain ⟨entry, among, same, _⟩ := mem_leavesOf made
      rcases kept with differs | bound
      · exact absurd (same ▸ locals entry among) differs
      · obtain ⟨binding, noted⟩ := Option.isSome_iff_exists.1 bound
        have role := binds _ _ noted
        rw [← same, (fits.implicit entry among).1.role] at role
        exact nomatch role
  refine ⟨accounts.mirrors.declareIn bare locals, fun place listed binding noted => ?_,
    fun place listed isMissing type isType => ?_⟩
  · obtain ⟨old, placed, rfl⟩ := origin listed (.inr (by rw [noted]; rfl))
    have known := accounts.bound old placed binding (by rwa [← adds.id_mapUp])
    refine ⟨fun owed among => known.owed owed ?_, fun decl same => ?_⟩
    · rwa [Surroundings.obligationsOf_mapUp_declareIn bare] at among
    · obtain ⟨script, type, listed, name, member, found, declares⟩ := known.outer decl same
      refine ⟨script, type.mapUp (declareIn state.implicit), ?_, name, member, ?_, declares⟩
      · rw [Place.types_mapUp adds]
        exact List.mem_map_of_mem listed
      · rwa [adds.id_mapUp]
  · have isExpression : place.node.shape.family = .expression :=
      Surroundings.family_of_isMissing isMissing
    obtain ⟨old, placed, rfl⟩ := origin listed (.inl (by rw [isExpression]; decide))
    have fixes (node : Node) (family : node.shape.family = .expression) :
        declareIn state.implicit node = node := declareIn_of_family (by rw [family]; decide)
    have oldMissing : Surroundings.isMissing old.node :=
      Surroundings.isMissing_mapUp fixes adds.family old.node ▸
        isMissing
    rw [Place.type?_mapUp adds, Option.map_eq_some_iff] at isType
    obtain ⟨type, isType, rfl⟩ := isType
    rw [adds.id_mapUp]
    exact accounts.omitted old (all old placed) oldMissing type isType

theorem sweep {old : Node} (accounts : state.Accounts around seen)
    (fits : state.Fits around roles) (keeps : state.Keeps roles old)
    (static : around.Fits roles bound) (older : bound ≤ state.fresh) (final : Bool) :
    (around.sweep final state).Accounts around (around.sweep final state).root.placesUp := by
  have started : { state with changed := false }.Accounts around [] :=
    ⟨accounts.mirrors, fun place listed binding noted =>
      ⟨(accounts.bound place listed binding noted).owed,
        (accounts.bound place listed binding noted).outer⟩, nofun⟩
  have startedKeeps : { state with changed := false }.Keeps roles old :=
    ⟨keeps.houses, keeps.binds⟩
  have startedFits := fits.record state.cache state.warnings state.obligations false
  have walked := started.walk startedFits static older final fun _ listed => listed
  obtain ⟨walkedFits, evolves⟩ := startedFits.walk final static older fun _ listed => listed
  refine walked.settleImplicit walkedFits (startedKeeps.walk startedFits static older final).binds
    fun place listed => ?_
  rw [evolves.root] at listed
  exact listed

theorem sweeps {old : Node} (accounts : state.Accounts around [])
    (underway : state.Underway around roles bound) (keeps : state.Keeps roles old)
    (static : around.Fits roles bound) (attempts : Nat) :
    (around.sweeps attempts state).2.Accounts around [] := by
  refine keeps.sweeps_induction underway static (motive := (·.Accounts around [])) accounts ?_ attempts
  intro before keeps underway accounts
  have swept := accounts.sweep underway.fits keeps static underway.older false
  exact ⟨swept.mirrors, swept.bound, nofun⟩

end Accounts

end ResolutionState

end Sweeps

section Start

namespace Draft.Prepared

variable {symbols : SymbolTable} {options : MigrationOptions} {store : ScriptStore}
  {id : ScriptId} {script : Script} {draft : Draft}

theorem mirrors (prepared : draft.Prepared) :
    (Surroundings.forScript symbols options store id script draft).Mirrors draft.root := by
  have distinct := prepared.formed.distinct
  refine ⟨prepared.isType, fun place placed isType => ?_, fun node inside isType => ?_,
    fun node inside isType name member found => ?_,
    fun node inside _ => (prepared.asRead node inside).written⟩
  · obtain ⟨decl, shape⟩ := (Shape.isType_iff _).1 isType
    change ((ScopeIndex.ofTree draft.root).types[place.node.id]?).bind _ = _
    rw [ScopeIndex.types_of_mem distinct placed shape, Option.bind_some,
      MemberScope.outer_ofDecl]
  · obtain ⟨decl, shape⟩ := (Shape.isType_iff _).1 isType
    have known : (Surroundings.forScript symbols options store id script draft).node?
        ⟨id, node.id⟩ = some node := by
      refine (Surroundings.node?_own _ _).trans ?_
      exact nodesById_of_mem distinct inside
    have sees : (Surroundings.forScript symbols options store id script draft).sees id :=
      Bool.or_eq_true_iff.2 (.inl (beq_self_eq_true id))
    change Surroundings.declDescriptor? _ ⟨id, node.id⟩ =
      node.declName?.map (.ofScript ⟨id, node.id⟩)
    rw [Surroundings.declDescriptor?, if_pos sees, known, Option.bind_some, Node.typeDecl?,
      Node.declName?, shape]
    rfl
  · obtain ⟨decl, shape⟩ := (Shape.isType_iff _).1 isType
    obtain ⟨place, placed, rfl⟩ := Node.exists_mem_placesUp inside
    change ((ScopeIndex.ofTree draft.root).types[place.node.id]?).bind _ = _ at found
    rw [ScopeIndex.types_of_mem distinct placed shape, Option.bind_some] at found
    refine List.mem_map_of_mem ?_
    rw [Node.children, shape]
    exact (MemberScope.mem_of_find?_ofDecl found).1

theorem start_accounts (prepared : draft.Prepared) (cache : MemberMemo) :
    ((Surroundings.forScript symbols options store id script draft).start draft cache).Accounts
      (Surroundings.forScript symbols options store id script draft) [] :=
  ⟨prepared.mirrors, fun place _ _ noted => (nomatch
    ((Surroundings.start_notes _ cache prepared.formed.unknown).2 place.node.id).symm.trans noted),
    nofun⟩

end Draft.Prepared

end Start

end ScriptMigration
