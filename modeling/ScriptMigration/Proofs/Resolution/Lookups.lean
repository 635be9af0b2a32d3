import ScriptMigration.Proofs.Resolution.Reporting

/-! What decides what a name stands for: its spelling but for the case of letters, the procedure and the
types around it, and the variables that the procedure has by then. -/
namespace ScriptMigration

namespace Shape

variable {α β : Type}

def targets : Shape α → List α
  | assign _ target _ | redim _ target _ => [target]
  | forRange counter .. => [counter]
  | forEach item .. => [item]
  | _ => []

end Shape

def Place.IsTarget (place : Place) : Prop :=
  ∃ parent ∈ place.parent?, ∃ target ∈ parent.shape.targets, target.id = place.node.id

theorem Typing.mayDeclare_iff (place : Place) : mayDeclare place ↔ place.IsTarget := by
  unfold mayDeclare Place.isAssignTarget Place.IsTarget
  cases place.parent? with
  | none => simp
  | some parent =>
    simp only [Option.map_some, Option.mem_def, Option.some.injEq, exists_eq_left']
    cases parent.shape <;> simp [Shape.targets]

section Spelling

variable {around : Surroundings} {text name : String}

theorem sameName_congr (same : FoldedName.of text = .of name) (other : String) :
    sameName other text = sameName other name := by
  unfold sameName
  rw [same]

namespace Surroundings

theorem memberAround?_congr (same : FoldedName.of text = .of name) (types : List NodeId) :
    around.memberAround? text types = around.memberAround? name types := by
  induction types with
  | nil => rfl
  | cons type outer ih =>
    unfold memberAround? MemberScope.find?
    rw [same, ih]

theorem typeBinding?_congr (same : FoldedName.of text = .of name) (types : List NodeId) :
    around.typeBinding? text types = around.typeBinding? name types := by
  cases types with
  | nil => rfl
  | cons type outer =>
    simp only [typeBinding?, MemberScope.find?, same, memberAround?_congr same]

theorem bodyBinding?_congr (same : FoldedName.of text = .of name) (body : LocalScope) :
    bodyBinding? body text = bodyBinding? body name := by
  unfold bodyBinding? LocalScope.local? LocalScope.param?
  rw [same]

theorem onForm_congr (same : FoldedName.of text = .of name) :
    around.onForm text = around.onForm name := by
  unfold onForm HostForm.find? HostForm.field? HostForm.member? SymbolTable.formMember?
  rw [same]

theorem symbolBinding?_congr (same : FoldedName.of text = .of name) :
    around.symbolBinding? text = around.symbolBinding? name := by
  have print : Fingerprint.ofGlobal text = Fingerprint.ofGlobal name := by
    unfold Fingerprint.ofGlobal
    refine congrArg Fingerprint.mk (congrArg (HXor.hXor _) ?_)
    exact congrArg (fun folded : FoldedName => Digest.ofText folded.text) same
  unfold symbolBinding? SymbolTable.constant? SymbolTable.function? SymbolTable.specialName?
  rw [print, same]

/-- Where a name that is given a value stands for nothing, it stands for nothing at all places of the
procedure, however it is spelled. -/
theorem find?_eq_none_of_target {bodies : Std.HashMap NodeId LocalScope} {place target : Place}
    (unknown : around.find? bodies target name = none) (isTarget : Typing.mayDeclare target)
    (same : FoldedName.of text = .of name) (method : place.method? = target.method?)
    (types : place.types = target.types) : around.find? bodies place text = none := by
  unfold find? at unknown ⊢
  simp only [Option.or_eq_none_iff] at unknown ⊢
  obtain ⟨own, form, inBody, inTypes, included, onForm, symbol⟩ := unknown
  refine ⟨?_, ?_, ?_, ?_, ?_, ?_, ?_⟩
  · -- A target is not called, so as its own result it would be found there.
    have isResult (decl : MethodDecl Node) :
        isOwnResult target decl name = (decl.kind.returnsValue && sameName decl.name name) := by
      unfold isOwnResult
      obtain ⟨parent, isParent, written, isWritten, -⟩ := (Typing.mayDeclare_iff target).1 isTarget
      rw [Option.mem_def.1 isParent, Option.map_some]
      cases shape : parent.shape <;> rw [shape] at isWritten <;>
        first | exact Bool.and_true _ | exact nomatch isWritten
    rw [method]
    cases isMethod : target.method? with
    | none => rfl
    | some node =>
      rw [isMethod] at own
      simp only [Option.bind_some, Option.map_eq_none_iff, Option.filter_eq_none_iff] at own ⊢
      intro decl isDecl isResult'
      refine own decl isDecl ?_
      rw [isResult, ← sameName_congr same]
      unfold isOwnResult at isResult'
      exact (Bool.and_eq_true_iff.1 isResult').1
  · simpa only [sameName_congr same] using form
  · simpa only [method, bodyBinding?_congr same] using inBody
  · rwa [types, typeBinding?_congr same]
  · unfold IncludedNames.find? at included ⊢
    rwa [same]
  · rw [onForm_congr same]
    split at onForm
    · exact nomatch onForm
    · rename_i absent
      exact if_neg absent
  · rwa [symbolBinding?_congr same]

end Surroundings

end Spelling

section Names

variable {around : Surroundings}

structure Place.LooksUpAs (around : Surroundings) (place old : Place) : Prop where
  id : place.node.id = old.node.id
  text : place.node.nameText? = old.node.nameText?
  method : place.method?.map Node.id = old.method?.map Node.id
  target : Typing.mayDeclare place = Typing.mayDeclare old
  finds : ∀ bodies name, around.find? bodies place name = around.find? bodies old name

namespace Place.LooksUpAs

variable {place old older : Place}

theorem refl (place : Place) : place.LooksUpAs around place := ⟨rfl, rfl, rfl, rfl, fun _ _ => rfl⟩

theorem trans (first : place.LooksUpAs around old) (second : old.LooksUpAs around older) :
    place.LooksUpAs around older :=
  ⟨first.id.trans second.id, first.text.trans second.text, first.method.trans second.method,
    first.target.trans second.target, fun bodies name =>
      (first.finds bodies name).trans (second.finds bodies name)⟩

theorem declaresAt (same : place.LooksUpAs around old) (bodies : Std.HashMap NodeId LocalScope) :
    around.declaresAt bodies place = around.declaresAt bodies old := by
  have method : place.method?.isSome = old.method?.isSome := by
    rw [← Option.isSome_map (f := Node.id), same.method, Option.isSome_map]
  unfold Surroundings.declaresAt
  rw [same.text, same.target, method]
  simp only [same.finds]

theorem mapUp_declareIn (implicit : List ImplicitLocal) (place : Place) :
    (place.mapUp (ResolutionState.declareIn implicit)).LooksUpAs around place := by
  refine ⟨place.node.id_mapUp_declareIn, place.node.nameText?_mapUp_declareIn, ?_,
    place.mayDeclare_mapUp_declareIn, fun _ name => Surroundings.find?_mapUp_declareIn place name⟩
  rw [place.method?_mapUp_declareIn, Option.map_map]
  exact congrArg (place.method?.map ·) (funext Node.id_mapUp_declareIn)

end Place.LooksUpAs

structure Node.NamesAs (around : Surroundings) (root old : Node) : Prop where
  kept : ∀ before ∈ old.placesUp, ∃ place ∈ root.placesUp, place.LooksUpAs around before
  known : ∀ place ∈ root.placesUp, place.node.nameText?.isSome →
    ∃ before ∈ old.placesUp, place.LooksUpAs around before

theorem Surroundings.find?_of_none {start bodies : Std.HashMap NodeId LocalScope} {place : Place}
    {text : String} (unknown : around.find? start place text = none)
    (params : ∀ method : NodeId, bodies[method]?.bind (·.param? text) =
      start[method]?.bind (·.param? text)) :
    around.find? bodies place text = (place.method?.bind fun method =>
      bodies[method.id]?.bind (·.local? text)).map .localVar := by
  unfold find? at unknown ⊢
  simp only [Option.or_eq_none_iff] at unknown
  obtain ⟨own, form, inBody, inTypes, included, onForm, symbol⟩ := unknown
  simp only [own, form, inTypes, included, onForm, symbol, Option.none_or, Option.or_none]
  cases isMethod : place.method? with
  | none => rfl
  | some method =>
    simp only [isMethod, Option.bind_some] at inBody ⊢
    have noParam : bodies[method.id]?.bind (·.param? text) = none := by
      rw [params]
      cases scope : start[method.id]? with
      | none => rfl
      | some scope' =>
        rw [scope] at inBody
        simpa [bodyBinding?] using (Option.or_eq_none_iff.1 inBody).2
    cases scope : bodies[method.id]? with
    | none => rfl
    | some scope' =>
      rw [scope] at noParam
      simp only [Option.bind_some] at noParam ⊢
      simp [bodyBinding?, noParam]

end Names

section Visits

variable {around : Surroundings} {place : Place} {start : Std.HashMap NodeId LocalScope}
  {state : ResolutionState}

theorem Surroundings.declaresAt_iff : around.declaresAt start place ↔
    ∃ text, place.node.nameText? = some text ∧ around.find? start place text = none ∧
      around.explicit = false ∧ Typing.mayDeclare place ∧ place.method?.isSome := by
  unfold declaresAt
  cases place.node.nameText? with
  | none => simp
  | some text => simp [and_assoc]

theorem Surroundings.binding?_visit_name {text : String} {binding : Binding}
    (isText : place.node.nameText? = some text)
    (found : around.find? state.bodies place text = some binding) (final : Bool) :
    (around.sweepNode final state place).notes.binding? place.node.id = some binding := by
  have shape := Node.shape_of_nameText? isText
  have typed : (around.typed final state.notes state.bodies state.cache place).1 =
      .bound binding (Typing.known final (around.bindingDescriptor? place binding)) := by
    unfold Surroundings.typed
    dsimp only
    rw [shape]
    unfold nameTyped
    dsimp only
    rw [found]
  rw [sweepNode_name shape]
  unfold judgeExpression
  revert typed
  generalize around.typed final state.notes state.bodies state.cache place = judged
  obtain ⟨typed, cache⟩ := judged
  rintro rfl
  exact (binding?_noteJudgement _ _).trans (if_pos rfl)

end Visits

end ScriptMigration
