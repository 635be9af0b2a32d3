import ScriptMigration.Proofs.Resolution.Judged
import ScriptMigration.Proofs.Resolution.Naming
import ScriptMigration.Proofs.Resolution.Resolved

/-! What a reference has in common with the declaration of its script that it stands for. When a
reference is judged it defers to the declaration, so once nothing is deferred any more it has what was
known of the declaration when the sweeps ended. The declaration itself becomes an object if that is no
type, and so the two differ exactly where only null had flowed into the declaration. -/
namespace ScriptMigration

namespace Surroundings

def fed? (around : Surroundings) : Binding → Option NodeId
  | .localVar decl | .param decl | .returnValue decl => some decl
  | .member decl | .outer decl =>
    if decl.script == around.script && around.nodes[decl.node]?.any (·.shape.isField) then
      some decl.node
    else none
  | _ => none

variable {around : Surroundings} {notes : Notes} {binding : Binding} {decl : NodeId}

theorem flowDecl?_eq_fed? (target : Node) :
    around.flowDecl? notes target = (notes.binding? target.id).bind around.fed? := by
  unfold flowDecl?
  cases notes.binding? target.id with
  | none => rfl
  | some binding => cases binding <;> rfl

def HasMember (around : Surroundings) (id : NodeId) : Prop :=
  ∃ (type : NodeId) (name : String) (member : Node),
    around.types[type]?.bind (·.find? name) = some member ∧ member.id = id

/-- What stands for a declaration of the script defers to it, and stands for something of a procedure
or for a field that is a member of a type. -/
def Echoes (around : Surroundings) (binding : Binding) (descriptor : Option Descriptor) : Prop :=
  ∀ decl, around.fed? binding = some decl →
    descriptor = some (.deferred ⟨around.script, decl⟩) ∧
      (binding.target? = some decl ∨
        around.HasMember decl ∧ around.nodes[decl]?.any (·.shape.isField))

theorem echoes_of_aimless {descriptor : Option Descriptor} (aimless : around.fed? binding = none) :
    around.Echoes binding descriptor := by
  intro decl fed
  rw [aimless] at fed
  exact nomatch fed

theorem echoes_own (target : binding.target? = some decl) :
    around.Echoes binding (some (.deferred ⟨around.script, decl⟩)) := by
  intro other fed
  have same : decl = other := by
    cases binding with
    | localVar | param | returnValue =>
      exact (Option.some.inj target).symm.trans (Option.some.inj fed)
    | _ => exact nomatch target
  exact ⟨by rw [same], .inl (same ▸ target)⟩

theorem declDescriptor?_of_field (isField : around.nodes[decl]?.any (·.shape.isField)) :
    around.declDescriptor? ⟨around.script, decl⟩ = some (.deferred ⟨around.script, decl⟩) := by
  obtain ⟨node, found, field⟩ := Option.any_eq_true _ _ |>.1 isField
  have isNoType : node.typeDecl? = none := by
    unfold Node.typeDecl?
    cases shape : node.shape with
    | type => simp [shape, Shape.isField] at field
    | _ => rfl
  simp [declDescriptor?, sees, node?_own, found, isNoType]

theorem echoes_member {ref : DeclRef} (final : Bool)
    (isMember : binding = .member ref ∨ binding = .outer ref)
    (own : ref.script = around.script → around.HasMember ref.node) :
    around.Echoes binding (Typing.known final (around.declDescriptor? ref)) := by
  intro decl fed
  have taken : (if ref.script == around.script && around.nodes[ref.node]?.any (·.shape.isField) then
      some ref.node else none) = some decl := by
    rcases isMember with rfl | rfl <;> exact fed
  split at taken
  · rename_i isField
    rw [Bool.and_eq_true, beq_iff_eq] at isField
    obtain rfl := Option.some.inj taken
    rcases ref with ⟨script, node⟩
    obtain ⟨rfl, isField⟩ := isField
    rw [declDescriptor?_of_field isField]
    refine ⟨?_, .inr ⟨own rfl, isField⟩⟩
    cases final <;> rfl
  · exact nomatch taken

theorem hasMember_of_memberInScript? {type ref : DeclRef} {name : String}
    (found : around.memberInScript? type name = some ref) (own : ref.script = around.script) :
    around.HasMember ref.node := by
  unfold memberInScript? at found
  split at found
  · obtain ⟨member, isMember, rfl⟩ := Option.map_eq_some_iff.1 found
    exact ⟨_, _, member, isMember, rfl⟩
  · rename_i differs
    obtain ⟨member, -, rfl⟩ := Option.map_eq_some_iff.1 found
    exact absurd (beq_iff_eq.2 own) differs

end Surroundings

def Judgement.Echoes (typed : Judgement) (around : Surroundings) : Prop :=
  ∀ binding, typed.binding = some binding → around.Echoes binding typed.descriptor

namespace Surroundings

variable {around : Surroundings}

theorem typed_echoes {place : Place} (final : Bool) (notes : Notes)
    (bodies : Std.HashMap NodeId LocalScope) (cache : MemberMemo) :
    (around.typed final notes bodies cache place).1.Echoes around := by
  intro binding found
  obtain ⟨type, described, binds⟩ := typed_binds final notes cache found
  rw [described]
  cases binds with
  | unresolved => exact echoes_of_aimless rfl
  | name _ taken =>
    cases find?_eq_some taken with
    | returnValue | localVar | param => cases final <;> exact echoes_own rfl
    | member _ isMember => exact echoes_member final (.inl rfl) fun _ => ⟨_, _, _, isMember, rfl⟩
    | outer _ isMember => exact echoes_member final (.inr rfl) fun _ => ⟨_, _, _, isMember, rfl⟩
    | _ => exact echoes_of_aimless rfl
  | member _ finding =>
    cases finding with
    | inScript isMember =>
      unfold bindMember
      split
      · exact echoes_member final (.inl rfl) (hasMember_of_memberInScript? isMember)
      · exact echoes_of_aimless rfl
    | late | external | formMember => exact echoes_of_aimless rfl

end Surroundings

def Notes.EchoesAt (notes : Notes) (around : Surroundings) (id : NodeId) : Prop :=
  ∀ binding, notes.binding? id = some binding → around.Echoes binding (notes.descriptor? id)

theorem Judgement.Noted.echoes {typed : Judgement} {notes : Notes} {around : Surroundings}
    {id : NodeId} (noted : typed.Noted notes id) (bound : typed.binding.isSome)
    (echoes : typed.Echoes around) : notes.EchoesAt around id := by
  obtain ⟨binding, found⟩ := Option.isSome_iff_exists.1 bound
  intro other isBound decl fed
  obtain rfl := Option.some.inj ((noted.binding binding found).symm.trans isBound)
  obtain ⟨deferred, stands⟩ := echoes binding found decl fed
  exact ⟨Descriptor.eq_some_deferred_of_beq (noted.descriptor _ deferred), stands⟩

theorem Surroundings.Judges.echoes {around : Surroundings} {moment : ResolutionState} {place : Place}
    {typed : Judgement} (judges : around.Judges moment place typed) : typed.Echoes around := by
  cases judges with
  | typed => exact Surroundings.typed_echoes true _ _ _
  | declared =>
    rintro _ ⟨⟩
    exact Surroundings.echoes_own rfl

theorem ResolutionState.Fits.sweep_echoes {around : Surroundings} {roles : NodeId → Role}
    {state : ResolutionState} {bound : Nat} (fits : state.Fits around roles)
    (static : around.Fits roles bound) (older : bound ≤ state.fresh) (layers : state.root.InLayers)
    {node : Node} (inside : node ∈ (around.sweep true state).root.descendants)
    (reference : node.shape.isReference) :
    (around.sweep true state).notes.EchoesAt around node.id := by
  obtain ⟨place, moment, typed, judged⟩ := fits.sweep_judges static older layers inside
    ((Shape.isExpression_iff _).1 (Shape.isExpression_of_isReference reference))
  have isReference : place.node.shape.isReference := judged.same ▸ reference
  exact judged.noted.echoes (judged.judges.isSome_binding isReference) judged.judges.echoes

/-- What a reference and its declaration have in the end, by what is known of the declaration when the
sweeps are over. -/
def Descriptor.echoed : Option Descriptor → Option Descriptor × Option Descriptor
  | none => (some .object, none)
  | some .null => (some .null, some .object)
  | some .missing => (some .object, some .object)
  | some known => (some known, some known)

def Node.HasDeclaration (root : Node) (id : NodeId) : Prop :=
  ∃ node ∈ root.descendants, node.id = id ∧ node.shape.isDeclaration

section Targets

variable {around : Surroundings} {roles : NodeId → Role} {state : ResolutionState}
  {node target : Node} {decl : NodeId}

/-- What belongs to a procedure and is referred to from a name is declared in the tree. -/
theorem ResolutionState.Naming.declares (naming : state.Naming) (clear : state.implicit = [])
    (inside : node ∈ state.root.descendants) {binding : Binding}
    (bound : state.notes.binding? node.id = some binding) (aims : binding.target? = some decl) :
    state.root.HasDeclaration decl := by
  obtain ⟨setting, stands⟩ := Node.exists_stands inside
  have suits := naming.suits stands bound
  have held {name : FoldedName} {owner : NodeId} (has : state.HasVariable name decl owner) :
      state.root.HasDeclaration decl := by
    rcases has with ⟨_, held, stands, isVariable, rfl, _⟩ | ⟨entry, listed, _⟩
    · refine ⟨held, stands.mem, rfl, ?_⟩
      rw [Shape.isDeclaration_eq]
      rcases Node.family_of_variableName? isVariable with family | family <;> rw [family] <;> rfl
    · rw [clear] at listed
      exact nomatch listed
  cases binding with
  | localVar | param =>
    obtain rfl := Option.some.inj aims
    obtain ⟨_, _, _, _, has⟩ := suits
    exact held has
  | returnValue =>
    obtain rfl := Option.some.inj aims
    obtain ⟨method, among, same, family, _⟩ := stands.below_of_method suits.2
    exact ⟨method, among, same, by rw [Shape.isDeclaration_eq, family]; rfl⟩
  | _ => exact nomatch aims

theorem ResolutionState.Fits.settle_echoes (fits : state.Fits around roles)
    (knows : around.KnowsOuter) (draft : Draft) (inside : node ∈ state.root.descendants)
    (deferred : state.notes.descriptor? node.id = some (.deferred ⟨around.script, target.id⟩))
    (lies : target ∈ state.root.descendants) (declares : target.shape.isDeclaration) :
    ((around.settle draft state).notes.descriptor? node.id,
      (around.settle draft state).notes.descriptor? target.id) =
        Descriptor.echoed (state.notes.descriptor? target.id) := by
  have follows : (Descriptor.deferred ⟨around.script, target.id⟩).follow
      (around.lookup state.notes) = state.notes.descriptor? target.id := by
    have found : (around.lookup state.notes).find ⟨around.script, target.id⟩ =
        state.notes.descriptor? target.id := if_pos (beq_self_eq_true _)
    rw [Descriptor.follow_deferred_of_known fun next known =>
      fits.known_of_declares lies declares (found.symm.trans known), found]
  rw [(Surroundings.notes_settle_old draft knows (fits.tree.small node inside)).1, deferred,
    (Surroundings.notes_settle_old draft knows (fits.tree.small target lies)).1,
    fits.nodesById_undeferred draft lies, declares, Option.map_some, Surroundings.concrete, follows]
  cases noted : state.notes.descriptor? target.id with
  | none => rfl
  | some descriptor =>
    have known := fits.known_of_declares lies declares noted
    cases descriptor with
    | deferred => exact nomatch known
    | _ => rfl

end Targets

section Resolve

variable {symbols : SymbolTable} {options : MigrationOptions} {store : ScriptStore}
  {cache : MemberMemo} {id : ScriptId} {script : Script} {draft : Draft}

theorem Draft.Formed.mem_of_hasMember (formed : draft.Formed) {field : NodeId}
    (has : (Surroundings.forScript symbols options store id script draft).HasMember field)
    (isField : (Surroundings.forScript symbols options store id script draft).nodes[field]?.any
      (·.shape.isField)) :
    ∃ node ∈ draft.root.descendants, node.id = field ∧ node.shape.family = .field := by
  obtain ⟨type, name, member, found, rfl⟩ := has
  have inside := (ScopeIndex.mem_of_find? found).1
  have listed : (Surroundings.forScript symbols options store id script draft).nodes[member.id]? =
      some member := Draft.nodesById_of_mem formed.distinct inside
  rw [listed, Option.any_some] at isField
  refine ⟨member, inside, rfl, ?_⟩
  cases shape : member.shape with
  | field => rfl
  | _ => simp [shape, Shape.isField] at isField

theorem Draft.Formed.hasDeclaration (formed : draft.Formed) {state : ResolutionState}
    (naming : state.Naming) (clear : state.implicit = [])
    (keeps : state.Keeps draft.root.roleOf draft.root) {node : Node}
    (inside : node ∈ state.root.descendants) {binding : Binding}
    (bound : state.notes.binding? node.id = some binding) {decl : NodeId}
    (stands : binding.target? = some decl ∨
      (Surroundings.forScript symbols options store id script draft).HasMember decl ∧
        (Surroundings.forScript symbols options store id script draft).nodes[decl]?.any
          (·.shape.isField)) : state.root.HasDeclaration decl := by
  rcases stands with own | ⟨has, isField⟩
  · exact naming.declares clear inside bound own
  · obtain ⟨field, listed, rfl, family⟩ := formed.mem_of_hasMember has isField
    obtain ⟨image, among, same, imageFamily⟩ := keeps.houses.nodes field listed
    exact ⟨image, among, same, by rw [Shape.isDeclaration_eq, imageFamily, family]; rfl⟩

/-- In a resolved script, a reference to a local variable, a parameter, a return value or a field of
the script has what was known of the declaration when the sweeps were over. So has the declaration,
but that it becomes an object where that was null, and stays unknown where there was no sweep before
the last one to tell. -/
theorem ScriptStore.resolve_echoes (symbols : SymbolTable) (options : MigrationOptions)
    (cache : MemberMemo) (listed : store.get? id = some script)
    (read : script.draft? = some draft) (prepared : draft.Prepared) :
    ∃ resolved, (store.resolve symbols options cache id).store.draft? id = some resolved ∧
      ∀ around, around = Surroundings.forScript symbols options store id script draft →
        ∀ swept, swept = (around.sweep true (around.beforeLast draft cache)).notes →
        ∀ node ∈ resolved.root.descendants, node.shape.isReference →
        ∀ decl, around.flowDecl? resolved.notes node = some decl →
          (resolved.notes.descriptor? node.id, resolved.notes.descriptor? decl) =
              Descriptor.echoed (swept.descriptor? decl) ∧
            (swept.descriptor? decl = none → options.maxAttempts = 0) := by
  have formed := prepared.formed
  have static : (Surroundings.forScript symbols options store id script draft).Fits
      draft.root.roleOf draft.fresh := formed.surroundings_fit
  have knows : (Surroundings.forScript symbols options store id script draft).KnowsOuter :=
    formed.knowsOuter
  obtain ⟨underway, declared⟩ := (formed.start_underway cache).sweeps static options.maxAttempts
  have last := underway.sweep static true
  have swept := (prepared.start_keeps cache).sweeps (formed.start_underway cache) static
    options.maxAttempts
  have keeps := swept.sweep underway.fits static underway.older true
  have naming := ((prepared.start_naming cache).sweeps (prepared.start_keeps cache)
    (formed.start_underway cache) static options.maxAttempts).sweep swept underway.fits static
      underway.older true
  refine ⟨_, by rw [(resolve_eq symbols options cache listed read).1]; exact draft?_setDraft listed,
    ?_⟩
  rintro around rfl _ rfl node inside reference decl flows
  rcases Surroundings.mem_settle inside with ⟨old, lies, traces⟩ | ⟨_, _, _, isField⟩
  case inr =>
    rw [(Shape.isExpression_iff _).1 (Shape.isExpression_of_isReference reference)] at isField
    exact nomatch isField
  have echoes := underway.fits.sweep_echoes static underway.older swept.houses.layers lies
    (traces.reference ▸ reference)
  rw [Surroundings.flowDecl?_eq_fed?] at flows
  obtain ⟨binding, bound, fed⟩ := Option.bind_eq_some_iff.1 flows
  rw [traces.id] at bound ⊢
  have bound := (Surroundings.binding?_settle _).symm.trans bound
  obtain ⟨deferred, stands⟩ := echoes binding bound decl fed
  obtain ⟨target, among, rfl, declares⟩ :=
    formed.hasDeclaration naming last.clear keeps lies bound stands
  refine ⟨last.fits.settle_echoes knows draft lies deferred among declares, fun unknown => ?_⟩
  by_contra some
  have known := underway.fits.sweep_describes static underway.older
    (declared (Nat.one_le_iff_ne_zero.2 some)) underway.clear underway.types among declares
  exact nomatch unknown.symm ▸ known

theorem ScriptStore.resolve_echoes_null : ∃ module resolved script,
    parseModule "Sub S()\n Dim x\n x = Nothing\nEnd Sub\n" "Test" = .ok module ∧
    (ScriptStore.alone module).get? ⟨0⟩ = some script ∧
    ((ScriptStore.alone module).resolve .empty {} (.withCapacity 8) ⟨0⟩).store.draft? ⟨0⟩ =
      some resolved ∧
    ∀ around, around = Surroundings.forScript .empty {} (.alone module) ⟨0⟩ script
        (.ofModule module) →
      ∀ swept, swept =
        (around.sweep true (around.beforeLast (.ofModule module) (.withCapacity 8))).notes →
      ∀ node ∈ resolved.root.descendants, node.shape.isReference →
      ∀ decl, around.flowDecl? resolved.notes node = some decl →
        (resolved.notes.descriptor? node.id, resolved.notes.descriptor? decl) =
            Descriptor.echoed (swept.descriptor? decl) ∧ swept.descriptor? decl ≠ none := by
  obtain ⟨module, parsed⟩ : ∃ module,
      parseModule "Sub S()\n Dim x\n x = Nothing\nEnd Sub\n" "Test" = .ok module :=
    exists_module (by decide +kernel)
  have prepared : (Draft.ofModule module).Prepared := .read parsed
  obtain ⟨resolved, found, echoes⟩ := ScriptStore.resolve_echoes .empty {} (.withCapacity 8)
    (show (ScriptStore.alone module).get? ⟨0⟩ = some _ from rfl) rfl prepared
  refine ⟨module, resolved, _, parsed, rfl, found, ?_⟩
  rintro around isAround _ rfl node inside reference decl flows
  obtain ⟨echoed, unknown⟩ := echoes around isAround _ rfl node inside reference decl flows
  exact ⟨echoed, fun absent => nomatch unknown absent⟩

end Resolve

end ScriptMigration
