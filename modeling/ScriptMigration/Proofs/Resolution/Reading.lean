import ScriptMigration.Proofs.Resolution.Supplies

/-! What a visit reads. The type of an expression is a function of what is known of the declarations
and of the parts of the expression, because a deferred descriptor never stands for an expression. -/
namespace ScriptMigration

/-- Nothing that is given from outside stands for a declaration that has to be looked up: neither the
symbols nor the form nor what is known of other scripts. -/
structure Surroundings.Closed (around : Surroundings) : Prop where
  member : ∀ {print : Fingerprint} {member : SymbolMember},
    around.symbols.members[print]? = some member → member.result.isDeferred = false
  constant : ∀ {print : Fingerprint} {constant : SymbolConstant},
    around.symbols.constants[print]? = some constant → constant.value.isDeferred = false
  function : ∀ {print : Fingerprint} {function : SymbolFunction},
    around.symbols.functions[print]? = some function → function.result.isDeferred = false
  formSymbol : ∀ {name : FoldedName} {symbol : FormSymbol},
    around.symbols.formMembers[name]? = some symbol → symbol.result.isDeferred = false
  form : ∀ {form : HostForm} {name : String} {type : Descriptor}, around.form = some form →
    form.find? name = some type → type.isDeferred = false
  others : ∀ {script : ScriptId} {view : TreeView} {id : NodeId} {type : Descriptor},
    around.others[script]? = some view → view.descriptors[id]? = some type →
      type.isDeferred = false

/-- A descriptor that stands for no expression of the script. -/
def Surroundings.Refers (around : Surroundings) (roles : NodeId → Role)
    (descriptor : Descriptor) : Prop :=
  ∀ decl, descriptor = .deferred decl → decl.script = around.script →
    roles decl.node ≠ .expression

structure Notes.Direct (notes : Notes) (around : Surroundings) (roles : NodeId → Role) : Prop where
  refers : ∀ {id : NodeId} {descriptor : Descriptor}, notes.descriptor? id = some descriptor →
    around.Refers roles descriptor
  known : ∀ {id : NodeId} {descriptor : Descriptor}, notes.descriptor? id = some descriptor →
    roles id ≠ .expression → descriptor.isDeferred = false

/-- Two notes agree on all that is read at a place. -/
structure Notes.AgreeAt (place : Place) (roles : NodeId → Role) (notes notes' : Notes) : Prop where
  plain : ∀ id, roles id ≠ .expression → notes'.descriptor? id = notes.descriptor? id
  descriptor : ∀ id ∈ place.reads, notes'.descriptor? id = notes.descriptor? id
  binding : ∀ id ∈ place.reads, notes'.binding? id = notes.binding? id

theorem Descriptor.follow_deferred_of_known {lookup : KnownDecls} {decl : DeclRef}
    (known : ∀ next, lookup.find decl = some next → next.isDeferred = false) :
    (Descriptor.deferred decl).follow lookup = lookup.find decl := by
  cases found : lookup.find decl with
  | none =>
    refine Option.eq_none_iff_forall_ne_some.2 fun last followed => ?_
    obtain ⟨_, leads⟩ := follow_eq_some_iff.1 followed
    cases leads with
    | here isKnown => simp [isDeferred] at isKnown
    | next found' _ =>
      rw [found] at found'
      cases found'
  | some next =>
    exact follow_eq_some_iff.2 ⟨1, .next found (.here (known next found))⟩

namespace Surroundings

variable {around : Surroundings} {roles : NodeId → Role} {notes notes' : Notes} {place : Place}

theorem Refers.of_known {descriptor : Descriptor} (known : descriptor.isDeferred = false) :
    around.Refers roles descriptor := by
  rintro decl rfl
  simp [Descriptor.isDeferred] at known

theorem Closed.follow_congr (closed : around.Closed) (direct : notes.Direct around roles)
    (plain : ∀ id, roles id ≠ .expression → notes'.descriptor? id = notes.descriptor? id)
    {descriptor : Descriptor} (refers : around.Refers roles descriptor) :
    descriptor.follow (around.lookup notes') = descriptor.follow (around.lookup notes) := by
  cases deferred : descriptor.isDeferred with
  | false => rw [Descriptor.follow_of_known deferred, Descriptor.follow_of_known deferred]
  | true =>
    obtain ⟨decl, rfl⟩ : ∃ decl, descriptor = .deferred decl := by
      cases descriptor with
      | deferred decl => exact ⟨decl, rfl⟩
      | _ => simp [Descriptor.isDeferred] at deferred
    have foundSame : (around.lookup notes').find decl = (around.lookup notes).find decl := by
      unfold lookup descriptorOf?
      dsimp only
      split
      · rename_i own
        exact plain decl.node (refers decl rfl (eq_of_beq own))
      · rfl
    have known : ∀ next, (around.lookup notes).find decl = some next →
        next.isDeferred = false := by
      intro next found
      unfold lookup descriptorOf? at found
      dsimp only at found
      split at found
      · rename_i own
        exact direct.known found (refers decl rfl (eq_of_beq own))
      · obtain ⟨view, seen, noted⟩ := Option.bind_eq_some_iff.1 found
        exact closed.others seen noted
    rw [Descriptor.follow_deferred_of_known known, ← foundSame,
      Descriptor.follow_deferred_of_known (foundSame ▸ known)]

theorem Closed.followed?_congr (closed : around.Closed) (direct : notes.Direct around roles)
    (agree : notes.AgreeAt place roles notes') {id : NodeId} (read : id ∈ place.reads) :
    around.followed? notes' id = around.followed? notes id := by
  unfold followed?
  rw [agree.descriptor id read]
  cases noted : notes.descriptor? id with
  | none => rfl
  | some descriptor => exact closed.follow_congr direct agree.plain (direct.refers noted)

theorem Closed.callTyped_congr (closed : around.Closed) (direct : notes.Direct around roles)
    (agree : notes.AgreeAt place roles notes') (final : Bool) {callee : Node}
    (read : callee.id ∈ place.reads) (args : List Node) :
    around.callTyped final notes' callee args = around.callTyped final notes callee args := by
  unfold callTyped
  rw [closed.followed?_congr direct agree read, agree.binding callee.id read]

/-- The type of an expression depends on nothing but what is read at its place. -/
theorem Closed.typed_congr (closed : around.Closed) (direct : notes.Direct around roles)
    (agree : notes.AgreeAt place roles notes') (final : Bool)
    (bodies : Std.HashMap NodeId LocalScope) {cache cache' : MemberMemo}
    (faithful : cache.Faithful around.symbols) (faithful' : cache'.Faithful around.symbols) :
    (around.typed final notes' bodies cache' place).1 =
      (around.typed final notes bodies cache place).1 := by
  have part {node : Node} (among : node ∈ place.node.children) : node.id ∈ place.reads :=
    List.mem_append_left _ (List.mem_map_of_mem among)
  have followed (node : Node) (among : node ∈ place.node.children) :=
    closed.followed?_congr direct agree (part among)
  unfold typed
  dsimp only
  unfold Node.children at part followed
  cases shape : place.node.shape with
  | paren inner =>
    have read : inner.id ∈ place.reads := part (by simp [shape, Shape.children])
    simp only [agree.descriptor _ read]
  | member object name =>
    simp only
    cases subject : object.or place.withSubject? with
    | none => rfl
    | some target =>
      have read : target.id ∈ place.reads := by
        rcases Option.or_eq_some_iff.1 subject with rfl | ⟨_, isSubject⟩
        · exact part (by simp [shape, Shape.children])
        · exact List.mem_append_right _ (by simp [isSubject])
      simp only [closed.followed?_congr direct agree read]
      exact memberTyped_congr final _ _ faithful' faithful
  | call parens callee args =>
    exact closed.callTyped_congr direct agree final (part (by simp [shape, Shape.children])) args
  | binary op left right =>
    simp only [followed left (by simp [shape, Shape.children]),
      followed right (by simp [shape, Shape.children])]
  | unary op operand =>
    simp only [followed operand (by simp [shape, Shape.children])]
  | assignedValue =>
    simp only
    split <;> rfl
  | _ => rfl

theorem declDescriptor?_refers {decl : DeclRef} {descriptor : Descriptor}
    (found : around.declDescriptor? decl = some descriptor)
    (plain : decl.script = around.script → roles decl.node ≠ .expression) :
    around.Refers roles descriptor := by
  unfold declDescriptor? at found
  split at found
  · split at found
    · obtain rfl := Option.some.inj found
      exact .of_known rfl
    · obtain rfl := Option.some.inj found
      rintro _ ⟨⟩ own
      exact plain own
  · simp at found

theorem element_known (descriptor : Descriptor) : descriptor.element.isDeferred = false := by
  unfold Descriptor.element
  split
  · split <;> rfl
  · rfl

variable {bound : Nat} {descriptor : Descriptor}

theorem Offers.refers (offers : around.Offers descriptor) (closed : around.Closed)
    (static : around.Fits roles bound) : around.Refers roles descriptor := by
  cases offers with
  | fixed foreign => exact .of_known foreign.1
  | symbolMember listed => exact .of_known (closed.member listed)
  | constant listed => exact .of_known (closed.constant listed)
  | function listed => exact .of_known (closed.function listed)
  | formSymbol listed => exact .of_known (closed.formSymbol listed)
  | form isForm found => exact .of_known (closed.form isForm found)
  | scope => exact .of_known rfl
  | member listed stands => exact declDescriptor?_refers stands fun _ => static.member listed
  | dependency listed stands =>
    exact declDescriptor?_refers stands fun own => absurd own (static.included listed)
  | elsewhere other stands => exact declDescriptor?_refers stands fun own => absurd own other

end Surroundings

namespace ResolutionState.Fits

variable {around : Surroundings} {roles : NodeId → Role} {state : ResolutionState} {place : Place}
  {bound : Nat} {descriptor : Descriptor}

theorem supplies_refers (fits : state.Fits around roles) (static : around.Fits roles bound)
    (closed : around.Closed) (direct : state.notes.Direct around roles)
    (inside : place ∈ state.root.placesUp)
    (supplies : around.Supplies state.notes state.bodies place descriptor) :
    around.Refers roles descriptor := by
  have surrounds {node : Node} (among : node ∈ place.around) :
      roles node.id = node.shape.family.role :=
    fits.tree.role node (Node.around_subset inside among)
  have plain {id : NodeId} (isPlain : Role.Plain roles state.fresh id) :
      around.Refers roles (.deferred ⟨around.script, id⟩) := by
    rintro _ ⟨⟩ _
    rw [isPlain.role]
    decide
  cases supplies with
  | offered offers => exact offers.refers closed static
  | noted found => exact direct.refers found
  | followed leads => exact .of_known (Surroundings.followed?_known leads)
  | element => exact .of_known (Surroundings.element_known _)
  | merged _ _ known known' =>
    rw [Descriptor.merge_eq_join _ known known']
    exact .of_known (Descriptor.isDeferred_join known known')
  | ownType among isType stands =>
    refine Surroundings.declDescriptor?_refers stands fun _ => ?_
    rw [Shape.isType_eq, beq_iff_eq] at isType
    rw [surrounds among, isType]
    decide
  | property among isProperty =>
    rintro _ ⟨⟩ _
    rw [surrounds among, isProperty]
    decide
  | returnValue isMethod => exact plain (fits.method_plain inside isMethod)
  | inBody body named => exact plain (fits.body body named)

theorem typed_refers (fits : state.Fits around roles) (static : around.Fits roles bound)
    (closed : around.Closed) (direct : state.notes.Direct around roles)
    (faithful : state.cache.Faithful around.symbols) (inside : place ∈ state.root.placesUp)
    (final : Bool)
    (found : (around.typed final state.notes state.bodies state.cache place).1.descriptor =
      some descriptor) : around.Refers roles descriptor :=
  fits.supplies_refers static closed direct inside (Surroundings.typed_supplies faithful found)

end ResolutionState.Fits

/-- No descriptor of a state stands for an expression, and its cache holds what the table says. -/
structure ResolutionState.Grounded (state : ResolutionState) (around : Surroundings)
    (roles : NodeId → Role) : Prop where
  refers : ∀ {id : NodeId} {descriptor : Descriptor}, state.notes.descriptor? id =
    some descriptor → around.Refers roles descriptor
  faithful : state.cache.Faithful around.symbols

section Grounded

variable {around : Surroundings} {roles : NodeId → Role} {state after : ResolutionState}
  {place : Place} {bound : Nat}

namespace ResolutionState.Grounded

theorem direct (grounded : state.Grounded around roles) (fits : state.Fits around roles) :
    state.notes.Direct around roles := ⟨grounded.refers, fits.known⟩

theorem describe (grounded : state.Grounded around roles) {id : NodeId} {descriptor : Descriptor}
    (refers : around.Refers roles descriptor) :
    { state with notes := state.notes.describe id descriptor, changed := true }.Grounded
      around roles := by
  refine ⟨?_, grounded.faithful⟩
  intro other found noted
  simp only [Notes.descriptor?_describe] at noted
  split at noted
  · obtain rfl := Option.some.inj noted
    exact refers
  · exact grounded.refers noted

end ResolutionState.Grounded

theorem Touch.grounded (touch : Touch around roles (around.Refers roles) place state after)
    (grounded : state.Grounded around roles) : after.Grounded around roles := by
  cases touch with
  | record cache warnings obligations faithful =>
    exact ⟨grounded.refers, faithful grounded.faithful⟩
  | declare _ taken =>
    obtain ⟨_, _, _, _, _, rfl⟩ := ResolutionState.declare_eq_some taken
    exact ⟨grounded.refers, grounded.faithful⟩
  | decide mode role => exact ⟨grounded.refers, grounded.faithful⟩
  | bind binding role plain => exact ⟨grounded.refers, grounded.faithful⟩
  | judge descriptor role allows => exact grounded.describe allows
  | copy descriptor role known => exact grounded.describe (.of_known known)
  | rise id descriptor plain free known joined => exact grounded.describe (.of_known known)

theorem Touches.grounded (touches : Touches around roles (around.Refers roles) place state after)
    (grounded : state.Grounded around roles) : after.Grounded around roles := by
  induction touches with
  | refl => exact grounded
  | tail _ touch ih => exact touch.grounded ih

theorem ResolutionState.Grounded.visit (grounded : state.Grounded around roles)
    (fits : state.Fits around roles) (static : around.Fits roles bound) (closed : around.Closed)
    (older : bound ≤ state.fresh) (inside : place ∈ state.root.placesUp) (final : Bool) :
    (around.sweepNode final state place).Grounded around roles := by
  have new : around.Refers roles (.deferred ⟨around.script, ⟨state.fresh⟩⟩) := by
    rintro _ ⟨⟩ _
    rw [fits.later ⟨state.fresh⟩ (Nat.le_refl _)]
    decide
  have touches : Touches around roles (around.Refers roles) place state
      (around.sweepNode final state place) :=
    Touches.sweepNode fits static older inside final
      (fun _ found => fits.typed_refers static closed (grounded.direct fits) grounded.faithful
        inside final found) new
  exact touches.grounded grounded

end Grounded

end ScriptMigration
