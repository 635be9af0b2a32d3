import ScriptMigration.Proofs.Resolution.Supplies

/-! What a visit finds out refers to declarations of the batch. A name is bound to a declaration of the
right kind, and a type that is named is one that a script declares, because that is so of all that is
read at a place. -/
namespace ScriptMigration

/-- All that can be seen while a script is resolved refers to what the batch declares. -/
structure Surroundings.Knows (around : Surroundings) (kinds : DeclKinds) : Prop where
  symbols : around.symbols.Foreign
  form : ∀ form ∈ around.form, form.Foreign
  others : ∀ {script : ScriptId} {view : TreeView} {id : NodeId} {type : Descriptor},
    around.others[script]? = some view → view.descriptors[id]? = some type →
      type.Names kinds.isType
  node : ∀ {decl : DeclRef} {node : Node}, around.node? decl = some node → node.shape.isType →
    kinds.isType decl
  part : ∀ {decl : DeclRef} {node member : Node} {name : String}, around.node? decl = some node →
    node.findMember? name = some member → kinds.isMember ⟨decl.script, member.id⟩
  scope : ∀ {type : NodeId} {scope : MemberScope}, around.types[type]? = some scope →
    kinds.isType ⟨around.script, type⟩
  member : ∀ {type : NodeId} {name : String} {member : Node},
    around.types[type]?.bind (·.find? name) = some member →
      kinds.isMember ⟨around.script, member.id⟩
  dependency : ∀ {name : String} {decl : DeclRef}, around.dependencies.find? name = some decl →
    decl.script ≠ around.script ∧ (kinds.isType decl ∨ kinds.isMember decl)
  declared : ∀ {id : NodeId} {type : Descriptor}, around.declared[id]? = some type →
    type.Names kinds.isType

/-- Every type that notes name is one that a script declares. -/
def Notes.Names (notes : Notes) (kinds : DeclKinds) : Prop :=
  ∀ id descriptor, notes.descriptor? id = some descriptor → descriptor.Names kinds.isType

/-- What is found out about an expression refers to what the batch declares. -/
structure Judgement.Refers (typed : Judgement) (kinds : DeclKinds) (script : ScriptId)
    (declares : Shape.Family → NodeId → NodeId → Prop) (method : Option NodeId) : Prop where
  names : ∀ descriptor ∈ typed.descriptor, descriptor.Names kinds.isType
  fits : ∀ binding ∈ typed.binding, binding.Fits kinds script declares method

namespace Judgement.Refers

variable {kinds : DeclKinds} {script : ScriptId}
  {declares : Shape.Family → NodeId → NodeId → Prop} {method : Option NodeId}

theorem ofBinding {typed : Judgement} {binding : Binding} (bound : typed.binding = some binding)
    (fits : binding.Fits kinds script declares method)
    (names : ∀ descriptor ∈ typed.descriptor, descriptor.Names kinds.isType) :
    typed.Refers kinds script declares method := by
  refine ⟨names, fun other isBound => ?_⟩
  rw [bound] at isBound
  exact Option.some.inj isBound ▸ fits

end Judgement.Refers

namespace Surroundings

variable {around : Surroundings} {kinds : DeclKinds} {notes : Notes} {place : Place}

theorem bindMember_fits {declares : Shape.Family → NodeId → NodeId → Prop} {decl : DeclRef}
    (known : kinds.isMember decl) {method : Option NodeId} :
    (around.bindMember decl).Fits kinds around.script declares method := by
  unfold Surroundings.bindMember
  split
  · rename_i own
    exact ⟨eq_of_beq own, known⟩
  · rename_i other
    exact ⟨by simpa using other, .inr known⟩

namespace Knows

variable (knows : around.Knows kinds)

include knows

theorem declDescriptor? {decl : DeclRef} {descriptor : Descriptor}
    (found : around.declDescriptor? decl = some descriptor) : descriptor.Names kinds.isType := by
  unfold Surroundings.declDescriptor? at found
  split at found
  · split at found
    · rename_i type isType
      obtain rfl := Option.some.inj found
      obtain ⟨node, isNode, isDecl⟩ := Option.bind_eq_some_iff.1 isType
      refine Descriptor.names_ofScript _ (knows.node isNode ?_)
      rw [Node.shape_of_typeDecl? isDecl]
      rfl
    · obtain rfl := Option.some.inj found
      exact Descriptor.names_of_none rfl
  · exact nomatch found

theorem lookup (names : notes.Names kinds) (decl : DeclRef) (descriptor : Descriptor)
    (found : (around.lookup notes).find decl = some descriptor) : descriptor.Names kinds.isType := by
  unfold Surroundings.lookup Surroundings.descriptorOf? at found
  dsimp only at found
  split at found
  · exact names _ _ found
  · obtain ⟨view, seen, noted⟩ := Option.bind_eq_some_iff.1 found
    exact knows.others seen noted

theorem follow (names : notes.Names kinds) {first last : Descriptor}
    (known : first.Names kinds.isType) (followed : first.follow (around.lookup notes) = some last) :
    last.Names kinds.isType := known.follow (knows.lookup names) followed

theorem followed? (names : notes.Names kinds) {id : NodeId} :
    ∀ descriptor ∈ around.followed? notes id, descriptor.Names kinds.isType := by
  intro descriptor found
  obtain ⟨first, noted, leads⟩ := Option.bind_eq_some_iff.1 found
  exact knows.follow names (names id first noted) leads

theorem offers {type : Descriptor} (offered : around.Offers type) : type.Names kinds.isType := by
  cases offered with
  | fixed foreign => exact foreign.names
  | symbolMember listed => exact (knows.symbols.member _ _ listed).names
  | constant listed => exact (knows.symbols.constant _ _ listed).names
  | function listed => exact (knows.symbols.function _ _ listed).names
  | formSymbol listed => exact (knows.symbols.formMember _ _ listed).names
  | form isForm found => exact (knows.form _ isForm _ _ found).names
  | scope listed => exact Descriptor.names_ofScript _ (knows.scope listed)
  | member _ stands | dependency _ stands | elsewhere _ stands => exact knows.declDescriptor? stands

theorem typeNamed (context : List NodeId) (name : String) :
    (around.typeNamed context name).Names kinds.isType := knows.offers (.typeNamed context name)

theorem supplies (names : notes.Names kinds) {bodies : Std.HashMap NodeId LocalScope}
    {type : Descriptor} (supplied : around.Supplies notes bodies place type) :
    type.Names kinds.isType := by
  induction supplied with
  | offered offers => exact knows.offers offers
  | noted found => exact names _ _ found
  | followed leads => exact knows.followed? names _ leads
  | element _ ih => exact ih.element
  | merged _ _ _ _ first second => exact first.merge second fun _ _ absurd => nomatch absurd
  | ownType _ _ stands => exact knows.declDescriptor? stands
  | property | returnValue | inBody => exact Descriptor.names_of_none rfl

theorem memberInScript? {type decl : DeclRef} {name : String}
    (found : around.memberInScript? type name = some decl) : kinds.isMember decl := by
  unfold Surroundings.memberInScript? at found
  split at found
  · obtain ⟨member, listed, rfl⟩ := Option.map_eq_some_iff.1 found
    exact knows.member listed
  · obtain ⟨member, taken, rfl⟩ := Option.map_eq_some_iff.1 found
    obtain ⟨node, isNode, named⟩ := Option.bind_eq_some_iff.1 taken
    exact knows.part isNode named

section Fits

variable {declares : Shape.Family → NodeId → NodeId → Prop}

theorem memberFinding_fits {name : String} {binding : Binding} {type : Option Descriptor}
    {method : Option NodeId} (finding : around.MemberFinding final name binding type) :
    binding.Fits kinds around.script declares method := by
  cases finding with
  | inScript found => exact bindMember_fits (knows.memberInScript? found)
  | late | external | formMember => exact trivial

variable {bodies : Std.HashMap NodeId LocalScope} {name : String} {binding : Binding}

theorem finding_fits (finding : around.Finding bodies place name binding)
    (locals : ∀ {method scope name id}, bodies[method]? = some scope → scope.local? name = some id →
      declares .localVar id method)
    (params : ∀ {method scope name id}, bodies[method]? = some scope → scope.param? name = some id →
      declares .param id method) :
    binding.Fits kinds around.script declares (place.method?.map Node.id) := by
  cases finding with
  | returnValue isMethod =>
    rw [isMethod]
    rfl
  | localVar isMethod body taken =>
    rw [isMethod]
    exact ⟨_, rfl, locals body taken⟩
  | param isMethod body taken =>
    rw [isMethod]
    exact ⟨_, rfl, params body taken⟩
  | member _ taken | outer _ taken => exact ⟨rfl, knows.member taken⟩
  | dependency taken => exact knows.dependency taken
  | _ => exact trivial

end Fits

end Knows

end Surroundings

section Typed

variable {around : Surroundings} {kinds : DeclKinds} {notes : Notes} {place : Place} {final : Bool}
  {declares : Shape.Family → NodeId → NodeId → Prop}

theorem Surroundings.Knows.typed_refers (knows : around.Knows kinds) (names : notes.Names kinds)
    {bodies : Std.HashMap NodeId LocalScope}
    (locals : ∀ {method scope name id}, bodies[method]? = some scope → scope.local? name = some id →
      declares .localVar id method)
    (params : ∀ {method scope name id}, bodies[method]? = some scope → scope.param? name = some id →
      declares .param id method)
    {cache : MemberMemo} (faithful : cache.Faithful around.symbols) :
    (around.typed final notes bodies cache place).1.Refers kinds around.script declares
      (place.method?.map Node.id) := by
  refine ⟨fun type found => knows.supplies names (Surroundings.typed_supplies faithful found),
    fun binding found => ?_⟩
  obtain ⟨_, -, binds⟩ := Surroundings.typed_binds final notes cache found
  cases binds with
  | name _ taken => exact knows.finding_fits (Surroundings.find?_eq_some taken) locals params
  | unresolved => exact trivial
  | member _ finding => exact knows.memberFinding_fits finding

end Typed

end ScriptMigration
