import ScriptMigration.Proofs.Resolution.Memo
import ScriptMigration.Proofs.Resolution.Visit
import ScriptMigration.Resolution.Resolve

/-! A resolution does not depend on the members that were looked up before it, nor on how many of them
are kept. Only the types of expressions ask for them, and get what the symbol table says; all other
steps leave the cache alone. -/
namespace ScriptMigration

namespace ResolutionState

def withCache (state : ResolutionState) (cache : MemberMemo) : ResolutionState :=
  { state with cache }

def Cacheless (step : ResolutionState → ResolutionState) : Prop :=
  ∀ state cache, step (state.withCache cache) = (step state).withCache cache

/-- States that differ at most in their caches, which hold what the symbol table says. -/
structure Alike (symbols : SymbolTable) (state other : ResolutionState) : Prop where
  left : state.cache.Faithful symbols
  right : other.cache.Faithful symbols
  same : other = state.withCache other.cache

variable {symbols : SymbolTable} {state other : ResolutionState} {cache : MemberMemo}

section Steps

variable {step : ResolutionState → ResolutionState}

theorem Cacheless.cache_eq (blind : Cacheless step) (state : ResolutionState) :
    (step state).cache = state.cache := by
  have kept : step (state.withCache state.cache) = (step state).withCache state.cache :=
    blind state state.cache
  rw [show state.withCache state.cache = state from rfl] at kept
  rw [kept]
  rfl

theorem Cacheless.comp {last : ResolutionState → ResolutionState} (blind : Cacheless last)
    (before : Cacheless step) : Cacheless (last ∘ step) := by
  intro state cache
  rw [Function.comp_apply, before, blind]
  rfl

theorem Cacheless.foldl {α : Type} {step : ResolutionState → α → ResolutionState}
    (blind : ∀ item, Cacheless (step · item)) (items : List α) :
    Cacheless fun state => items.foldl step state := fun _ cache =>
  List.foldl_hom (fun state : ResolutionState => state.withCache cache)
    fun state item => blind item state cache

theorem Alike.after (alike : Alike symbols state other) (blind : Cacheless step) :
    Alike symbols (step state) (step other) := by
  have same : step other = (step state).withCache other.cache := by
    rw [← blind, ← alike.same]
  refine ⟨?_, ?_, ?_⟩
  · rw [blind.cache_eq]
    exact alike.left
  · rw [blind.cache_eq]
    exact alike.right
  · rw [blind.cache_eq]
    exact same

end Steps

theorem withCache_ite {cond : Prop} [Decidable cond] :
    (if cond then state else other).withCache cache =
      if cond then state.withCache cache else other.withCache cache :=
  apply_ite (fun state : ResolutionState => state.withCache cache) cond state other

theorem describe_cacheless (id : NodeId) (descriptor : Descriptor) :
    Cacheless (describe · id descriptor) := by
  intro state cache
  unfold describe
  rw [withCache_ite]
  rfl

theorem bind_cacheless (id : NodeId) (binding : Binding) : Cacheless (bind · id binding) := by
  intro state cache
  unfold bind
  rw [withCache_ite]
  rfl

theorem decide_cacheless (id : NodeId) (mode : LogicalMode) : Cacheless (decide · id mode) := by
  intro state cache
  unfold decide
  rw [withCache_ite]
  rfl

theorem oblige_cacheless (obligation : Obligation) : Cacheless (oblige · obligation) :=
  fun _ _ => rfl

theorem settleImplicit_cacheless : Cacheless settleImplicit := by
  intro state cache
  rcases state with ⟨_, _, _, _, _, _, _ | _⟩ <;> rfl

theorem elim_cacheless {α : Type} {step : ResolutionState → α → ResolutionState}
    (blind : ∀ item, Cacheless (step · item)) (item : Option α) :
    Cacheless fun state => item.elim state (step state) := by
  cases item with
  | none => exact fun _ _ => rfl
  | some item => exact blind item

end ResolutionState

namespace Surroundings

open ResolutionState

variable (around : Surroundings)

theorem defaultType_cacheless (final : Bool) (id : NodeId) : Cacheless (defaultType final id) := by
  intro state cache
  unfold defaultType
  rw [withCache_ite, ← describe_cacheless id .object state cache]
  rfl

theorem fill_cacheless (final : Bool) (node : Node) : Cacheless (fill final node) := by
  intro state cache
  unfold fill
  split <;> first | exact defaultType_cacheless final _ state cache | rfl

theorem pour_cacheless (flow : Inflow) : Cacheless (around.pour · flow) := fun state =>
  elim_cacheless (describe_cacheless flow.decl) (around.inflow? state.notes flow) state

theorem sweepProperty_cacheless (final : Bool) (id : NodeId) (decl : PropertyDecl Node) :
    Cacheless (around.sweepProperty final id decl) := by
  intro state cache
  unfold sweepProperty
  dsimp only [withCache]
  split
  · exact describe_cacheless id _ state cache
  · exact defaultType_cacheless final id state cache

theorem noteJudgement_cacheless (place : Place) (typed : Judgement) :
    Cacheless (around.noteJudgement place typed) := by
  have modes := elim_cacheless (decide_cacheless place.node.id) typed.mode
  have bindings := elim_cacheless (fun binding => (bind_cacheless place.node.id binding).comp
    (Cacheless.foldl oblige_cacheless (around.obligationsOf place binding))) typed.binding
  have descriptors := elim_cacheless (describe_cacheless place.node.id) typed.descriptor
  have obliged : Cacheless fun state => if isMissing place.node then
      place.type?.elim state fun type => state.oblige (.missing type.id) else state := by
    split
    · exact elim_cacheless (fun type : Node => oblige_cacheless (.missing type.id)) place.type?
    · exact fun _ _ => rfl
  exact descriptors.comp (obliged.comp (bindings.comp modes))

variable {around} {state other : ResolutionState}

theorem typed_congr (final : Bool) (notes : Notes) (bodies : Std.HashMap NodeId LocalScope)
    (place : Place) {cache cache' : MemberMemo} (faithful : cache.Faithful around.symbols)
    (faithful' : cache'.Faithful around.symbols) :
    (around.typed final notes bodies cache place).1 = (around.typed final notes bodies cache' place).1 := by
  unfold typed
  dsimp only
  cases place.node.shape with
  | member object name =>
    dsimp only
    split
    · rfl
    · exact memberTyped_congr final _ _ faithful faithful'
  | assignedValue =>
    dsimp only
    split <;> rfl
  | _ => rfl

theorem declareFor_alike (place : Place) (typed : Judgement)
    (alike : Alike around.symbols state other) :
    (around.declareFor place typed other).1 = (around.declareFor place typed state).1 ∧
      Alike around.symbols (around.declareFor place typed state).2
        (around.declareFor place typed other).2 := by
  obtain ⟨left, right, same⟩ := alike
  rw [same]
  unfold declareFor ResolutionState.declare
  split
  · cases place.method? with
    | none => exact ⟨rfl, left, right, rfl⟩
    | some method =>
      dsimp only
      cases method.methodDecl? with
      | none => exact ⟨rfl, left, right, rfl⟩
      | some decl => exact ⟨rfl, left, right, rfl⟩
  · exact ⟨rfl, left, right, rfl⟩

theorem judgeExpression_alike (final : Bool) (place : Place)
    (alike : Alike around.symbols state other) : Alike around.symbols
      (around.judgeExpression final place state) (around.judgeExpression final place other) := by
  obtain ⟨left, right, same⟩ := alike
  rw [same]
  unfold judgeExpression
  dsimp only [withCache]
  have faithful := typed_faithful final state.notes state.bodies place left
  have faithful' := typed_faithful final state.notes state.bodies place right
  rw [typed_congr final state.notes state.bodies place right left]
  revert faithful faithful'
  generalize (around.typed final state.notes state.bodies state.cache place).1 = typed
  generalize (around.typed final state.notes state.bodies state.cache place).2 = cache
  generalize (around.typed final state.notes state.bodies other.cache place).2 = cache'
  intro faithful faithful'
  have recorded : Alike around.symbols
      { state with cache, warnings := state.warnings ++ typed.warnings }
      { state with cache := cache', warnings := state.warnings ++ typed.warnings } :=
    ⟨faithful, faithful', rfl⟩
  obtain ⟨same, declared⟩ := declareFor_alike place typed recorded
  rw [same]
  exact declared.after (around.noteJudgement_cacheless place _)

theorem judge_alike (final : Bool) (place : Place) (alike : Alike around.symbols state other) :
    Alike around.symbols (around.judge final place state) (around.judge final place other) := by
  unfold judge
  split
  · exact alike.after (around.sweepProperty_cacheless final _ _)
  · split
    · exact judgeExpression_alike final place alike
    · exact alike

theorem sweepNode_alike (final : Bool) (place : Place) (alike : Alike around.symbols state other) :
    Alike around.symbols (around.sweepNode final state place)
      (around.sweepNode final other place) := by
  have judged := judge_alike final place alike
  have flows : around.inflows (around.judge final place other).notes place.node =
      around.inflows (around.judge final place state).notes place.node := by
    rw [judged.same]
    rfl
  rw [sweepNode_eq, sweepNode_eq, flows]
  exact (judged.after (Cacheless.foldl around.pour_cacheless _)).after (fill_cacheless final _)

theorem sweep_alike (final : Bool) (alike : Alike around.symbols state other) :
    Alike around.symbols (around.sweep final state) (around.sweep final other) := by
  have walked (places : List Place) {state other : ResolutionState}
      (alike : Alike around.symbols state other) :
      Alike around.symbols (places.foldl (around.sweepNode final) state)
        (places.foldl (around.sweepNode final) other) := by
    induction places generalizing state other with
    | nil => exact alike
    | cons place rest ih => exact ih (sweepNode_alike final place alike)
  obtain ⟨left, right, same⟩ := alike
  rw [same]
  have started : Alike around.symbols { state with changed := false }
      ({ state with changed := false }.withCache other.cache) := ⟨left, right, rfl⟩
  exact (walked state.root.placesUp started).after settleImplicit_cacheless

theorem sweeps_alike (attempts : Nat) (alike : Alike around.symbols state other) :
    (around.sweeps attempts other).1 = (around.sweeps attempts state).1 ∧
      Alike around.symbols (around.sweeps attempts state).2 (around.sweeps attempts other).2 := by
  induction attempts generalizing state other with
  | zero => exact ⟨rfl, alike⟩
  | succ attempts ih =>
    have swept := sweep_alike false alike
    have sameChanged : (around.sweep false other).changed = (around.sweep false state).changed := by
      rw [swept.same]
      rfl
    obtain ⟨same, later⟩ := ih swept
    unfold sweeps
    dsimp only
    rw [sameChanged]
    split
    · exact ⟨by rw [same], later⟩
    · exact ⟨rfl, swept⟩

/-- Resolving a draft gives the same with any two caches that hold what the symbol table says, and
such caches are left. -/
theorem resolveDraft_alike (around : Surroundings) (draft : Draft) {cache cache' : MemberMemo}
    (faithful : cache.Faithful around.symbols) (faithful' : cache'.Faithful around.symbols) :
    (around.resolveDraft draft cache).cache.Faithful around.symbols ∧
      (around.resolveDraft draft cache').cache.Faithful around.symbols ∧
      around.resolveDraft draft cache' = { around.resolveDraft draft cache with
        cache := (around.resolveDraft draft cache').cache } := by
  have started : Alike around.symbols (around.start draft cache) (around.start draft cache') :=
    ⟨faithful, faithful', rfl⟩
  obtain ⟨same, swept⟩ := sweeps_alike around.options.maxAttempts started
  have ended := sweep_alike true swept
  refine ⟨ended.left, ended.right, ?_⟩
  unfold resolveDraft
  dsimp only
  rw [same, ended.same]
  rfl

section Room

variable (around : Surroundings) (room : Nat)

def withRoom : Surroundings :=
  { around with options := { around.options with memberCacheCapacity := room } }

theorem memberAround?_withRoom (name : String) (types : List NodeId) :
    (around.withRoom room).memberAround? name types = around.memberAround? name types := by
  induction types with
  | nil => rfl
  | cons type outer ih =>
    unfold memberAround?
    rw [ih]
    rfl

theorem typeAround?_withRoom (name : String) (types : List NodeId) :
    (around.withRoom room).typeAround? name types = around.typeAround? name types := by
  induction types with
  | nil => rfl
  | cons type outer ih =>
    unfold typeAround?
    rw [ih]
    rfl

theorem typeBinding?_withRoom (name : String) (types : List NodeId) :
    (around.withRoom room).typeBinding? name types = around.typeBinding? name types := by
  cases types with
  | nil => rfl
  | cons type outer =>
    unfold typeBinding?
    dsimp only
    rw [memberAround?_withRoom]
    rfl

theorem typeNamed_withRoom (context : List NodeId) (name : String) :
    (around.withRoom room).typeNamed context name = around.typeNamed context name := by
  unfold typeNamed
  rw [typeAround?_withRoom]
  rfl

theorem find?_withRoom (bodies : Std.HashMap NodeId LocalScope) (place : Place) (name : String) :
    (around.withRoom room).find? bodies place name = around.find? bodies place name := by
  unfold find?
  rw [typeBinding?_withRoom]
  rfl

theorem typed_withRoom (final : Bool) (notes : Notes) (bodies : Std.HashMap NodeId LocalScope)
    (cache : MemberMemo) (place : Place) :
    (around.withRoom room).typed final notes bodies cache place =
      around.typed final notes bodies cache place := by
  unfold typed nameTyped
  simp only [typeNamed_withRoom, find?_withRoom]
  rfl

theorem judge_withRoom (final : Bool) (place : Place) (state : ResolutionState) :
    (around.withRoom room).judge final place state = around.judge final place state := by
  unfold judge judgeExpression
  simp only [typed_withRoom]
  rfl

theorem sweep_withRoom (final : Bool) (state : ResolutionState) :
    (around.withRoom room).sweep final state = around.sweep final state := by
  have visits : (around.withRoom room).sweepNode final = around.sweepNode final := by
    funext state place
    rw [sweepNode_eq, sweepNode_eq, judge_withRoom]
    rfl
  unfold sweep
  rw [visits]

theorem sweeps_withRoom (attempts : Nat) (state : ResolutionState) :
    (around.withRoom room).sweeps attempts state = around.sweeps attempts state := by
  induction attempts generalizing state with
  | zero => rfl
  | succ attempts ih =>
    unfold sweeps
    rw [sweep_withRoom]
    dsimp only
    rw [ih]

theorem resolveDraft_withRoom (draft : Draft) (cache : MemberMemo) :
    (around.withRoom room).resolveDraft draft cache = around.resolveDraft draft cache := by
  unfold resolveDraft
  have swept := around.sweeps_withRoom room around.options.maxAttempts (around.start draft cache)
  change (around.withRoom room).sweeps (around.withRoom room).options.maxAttempts
    ((around.withRoom room).start draft cache) = _ at swept
  rw [swept]
  dsimp only
  rw [sweep_withRoom]
  rfl

theorem withDeclared_withRoom (draft : Draft) :
    (around.withRoom room).withDeclared draft = (around.withDeclared draft).withRoom room := by
  have declares : (around.withRoom room).declaredType? = around.declaredType? := by
    funext context node
    have named : (around.withRoom room).typeNamed context = around.typeNamed context :=
      funext (around.typeNamed_withRoom room context)
    unfold declaredType? annotated?
    rw [named]
    rfl
  unfold withDeclared
  rw [declares]
  rfl

end Room

end Surroundings

/-- Resolving a script of a store gives the same whatever members were looked up before, and however
many of them are kept. -/
theorem ScriptStore.resolve_alike (store : ScriptStore) (symbols : SymbolTable)
    (options : MigrationOptions) (room : Nat) (id : ScriptId) {cache cache' : MemberMemo}
    (faithful : cache.Faithful symbols) (faithful' : cache'.Faithful symbols) :
    (store.resolve symbols options cache id).cache.Faithful symbols ∧
      (store.resolve symbols { options with memberCacheCapacity := room } cache' id).cache.Faithful
        symbols ∧
      store.resolve symbols { options with memberCacheCapacity := room } cache' id =
        { store.resolve symbols options cache id with
          cache := (store.resolve symbols { options with memberCacheCapacity := room } cache' id).cache } := by
  unfold resolve
  cases store.get? id with
  | none => exact ⟨faithful, faithful', rfl⟩
  | some script =>
    dsimp only
    cases script.draft? with
    | none => exact ⟨faithful, faithful', rfl⟩
    | some draft =>
      dsimp only
      have same : (Surroundings.ofScript symbols { options with memberCacheCapacity := room } store id
          script draft).withDeclared draft =
          ((Surroundings.ofScript symbols options store id script draft).withDeclared draft).withRoom
            room :=
        (Surroundings.ofScript symbols options store id script draft).withDeclared_withRoom room draft
      rw [same, Surroundings.resolveDraft_withRoom]
      obtain ⟨left, right, alike⟩ := ((Surroundings.ofScript symbols options store id script
        draft).withDeclared draft).resolveDraft_alike draft faithful faithful'
      exact ⟨left, right, by rw [alike]⟩

end ScriptMigration
