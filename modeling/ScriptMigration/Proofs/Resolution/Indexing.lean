import ScriptMigration.Proofs.Resolution.Echoing

/-! Indexing. A declaration with dimensions is an array as long as a script is resolved, and so is what
stands for it. A call of what stands for an array takes one dimension away, however many arguments it
has: with one dimension it gives an element, with more of them an array that has one less. -/
namespace ScriptMigration

namespace Shape

variable {α : Type}

/-- The number of dimensions that a declaration is written with. A parameter for an array, or for all
further arguments, has one. -/
def dimensions : Shape α → Nat
  | field decl | localVar decl => (decl.array.map (·.rank)).getD 0
  | param decl => if decl.marks.array || decl.marks.paramArray then 1 else 0
  | _ => 0

def typeName? : Shape α → Option String
  | field decl | localVar decl => decl.typeName
  | param decl => decl.typeName
  | _ => none

end Shape

def Binding.variable? (script : ScriptId) : Binding → Option DeclRef
  | localVar decl | param decl => some ⟨script, decl⟩
  | binding => binding.decl?

namespace Surroundings

def elementType (around : Surroundings) (place : Place) : Descriptor :=
  (place.node.shape.typeName?.map (around.typeNamed (place.types.map Node.id))).getD .object

/-- A declaration of the tree of the script has dimensions, or one in another script has and is
described by them. -/
inductive DeclaresArray (around : Surroundings) (root : Node) : DeclRef → BaseType → Nat → Prop where
  | own {place : Place} {base : BaseType} (placed : place ∈ root.placesUp)
      (array : 1 ≤ place.node.shape.dimensions) (element : around.elementType place = .type { base }) :
      DeclaresArray around root ⟨around.script, place.node.id⟩ base place.node.shape.dimensions
  | other {decl : DeclRef} {node : Node} {base : BaseType} (differs : decl.script ≠ around.script)
      (declared : around.node? decl = some node) (array : 1 ≤ node.shape.dimensions)
      (described : around.others[decl.script]?.bind (·.descriptors[decl.node]?) =
        some (.type { base, rank := node.shape.dimensions })) :
      DeclaresArray around root decl base node.shape.dimensions

variable {around : Surroundings} {place : Place} {moment : ResolutionState} {typed : Judgement}
  {decl : DeclRef}

theorem elementType_scalar (knows : around.KnowsTypes) (place : Place) :
    (around.elementType place).IsScalar := by
  unfold elementType
  cases place.node.shape.typeName? with
  | none => exact ⟨_, rfl⟩
  | some name => exact typeNamed_scalar knows _ _

theorem declaredType?_of_dimensions (array : 1 ≤ place.node.shape.dimensions) :
    around.declaredType? (place.types.map Node.id) place.node =
      some ((around.elementType place).withRank place.node.shape.dimensions) := by
  have annotated (typeName : Option String) {rank : Nat} (array : 1 ≤ rank) (context : List NodeId) :
      around.annotated? context typeName rank =
        some (((typeName.map (around.typeNamed context)).getD .object).withRank rank) := by
    cases typeName with
    | some name => rfl
    | none =>
      have positive : (rank == 0) = false := beq_false_of_ne (Nat.ne_of_gt array)
      simp [annotated?, positive]
  unfold declaredType? elementType
  cases shape : place.node.shape with
  | field decl | localVar decl | param decl =>
    rw [shape] at array
    exact annotated decl.typeName array _
  | _ =>
    rw [shape] at array
    exact absurd array (Nat.not_succ_le_zero 0)

theorem typeAround?_withDeclared (draft : Draft) (name : String) (context : List NodeId) :
    (around.withDeclared draft).typeAround? name context = around.typeAround? name context := by
  induction context with
  | nil => rfl
  | cons type outer ih =>
    simp only [typeAround?, ih]
    rfl

theorem typeNamed_withDeclared (draft : Draft) :
    (around.withDeclared draft).typeNamed = around.typeNamed := by
  funext context name
  unfold typeNamed
  rw [typeAround?_withDeclared]
  rfl

theorem declaredType?_withDeclared (draft : Draft) (context : List NodeId) (node : Node) :
    (around.withDeclared draft).declaredType? context node = around.declaredType? context node := by
  unfold declaredType? annotated?
  rw [typeNamed_withDeclared]
  rfl

theorem plain_of_dimensions {node : Node} (found : around.node? decl = some node)
    (array : 1 ≤ node.shape.dimensions) :
    (around.node? decl).bind Node.typeDecl? = none ∧ around.calledParams? decl = none := by
  unfold calledParams?
  rw [found, Option.bind_some, Option.map_some]
  unfold Node.typeDecl?
  cases shape : node.shape with
  | field | localVar | param => exact ⟨rfl, rfl⟩
  | _ =>
    rw [shape] at array
    exact absurd array (Nat.not_succ_le_zero 0)

/-- A name or a member that is found to stand for a variable has what is known of that, or defers to
it. -/
theorem typed_defers (notes : Notes) (bodies : Std.HashMap NodeId LocalScope) (cache : MemberMemo)
    {binding : Binding}
    (found : (around.typed true notes bodies cache place).1.binding = some binding)
    (means : binding.variable? around.script = some decl) :
    (around.typed true notes bodies cache place).1.descriptor =
        some ((around.declDescriptor? decl).getD .object) ∨
      (around.typed true notes bodies cache place).1.descriptor = some (.deferred decl) := by
  obtain ⟨type, described, binds⟩ := typed_binds true notes cache found
  rw [described]
  cases binds with
  | unresolved => exact nomatch means
  | name =>
    cases binding with
    | localVar | param =>
      obtain rfl := Option.some.inj means
      exact .inr rfl
    | member | outer | dependency =>
      obtain rfl := Option.some.inj means
      exact .inl rfl
    | _ => exact nomatch means
  | member _ finding =>
    cases finding with
    | inScript =>
      unfold bindMember at means
      split at means <;>
      · obtain rfl := Option.some.inj means
        exact .inl rfl
    | late | external | formMember => exact nomatch means

theorem Judges.defers (judges : around.Judges moment place typed) {binding : Binding}
    (found : typed.binding = some binding) (means : binding.variable? around.script = some decl) :
    typed.descriptor = some ((around.declDescriptor? decl).getD .object) ∨
      typed.descriptor = some (.deferred decl) := by
  cases judges with
  | typed => exact typed_defers _ _ _ found means
  | declared _ variable' =>
    obtain rfl := Option.some.inj found
    obtain rfl := Option.some.inj means
    exact .inr rfl

theorem callTyped_array {notes : Notes} {callee : Node} {args : List Node} {desc : DataType}
    {binding : Binding} (final : Bool) (followed : around.followed? notes callee.id = some (.type desc))
    (array : 0 < desc.rank) (indexed : args ≠ []) (bound : notes.binding? callee.id = some binding)
    (means : binding.variable? around.script = some decl) (plain : around.calledParams? decl = none) :
    (around.callTyped final notes callee args).descriptor =
      some (.type (desc.withRank (desc.rank - 1))) := by
  have applied : (if args.isEmpty then Typing.known final (around.followed? notes callee.id)
      else Typing.known final ((around.followed? notes callee.id).map around.indexed)) =
        some (.type (desc.withRank (desc.rank - 1))) := by
    have given : args.isEmpty = false := by simpa using indexed
    rw [given, followed]
    simp [Surroundings.indexed, array, Descriptor.element, Typing.known]
  unfold callTyped
  dsimp only
  rw [bound]
  cases binding with
  | localVar | param => exact applied
  | member | outer | dependency =>
    obtain rfl := Option.some.inj means
    dsimp only
    rw [plain]
    exact applied
  | _ => cases means

structure KnowsArray (around : Surroundings) (decl : DeclRef) (desc : DataType) : Prop where
  array : 0 < desc.rank
  defers : around.declDescriptor? decl = some (.deferred decl)
  plain : around.calledParams? decl = none
  leads : ∀ {notes : Notes}, (∀ {id : NodeId} {type : Descriptor}, around.declared[id]? = some type →
    notes.descriptor? id = some type) → (around.lookup notes).find decl = some (.type desc)

theorem followed?_of_deferred {notes : Notes} {id : NodeId} {desc : DataType}
    (noted : notes.descriptor? id = some (.deferred decl))
    (known : (around.lookup notes).find decl = some (.type desc)) :
    around.followed? notes id = some (.type desc) := by
  have isKnown (next : Descriptor) (found : (around.lookup notes).find decl = some next) :
      next.isDeferred = false := by
    rw [known] at found
    obtain rfl := Option.some.inj found
    rfl
  rw [followed?, noted, Option.bind_some, Descriptor.follow_deferred_of_known isKnown, known]

end Surroundings

namespace ResolutionState.Fits

variable {around : Surroundings} {roles : NodeId → Role} {state : ResolutionState} {bound : Nat}
  {callee node : Node} {decl : DeclRef} {desc : DataType} {binding : Binding}

theorem sweep_defers (fits : state.Fits around roles) (static : around.Fits roles bound)
    (older : bound ≤ state.fresh) (layers : state.root.InLayers) (array : around.KnowsArray decl desc)
    (inside : callee ∈ (around.sweep true state).root.descendants)
    (reference : callee.shape.isReference)
    (bound : (around.sweep true state).notes.binding? callee.id = some binding)
    (means : binding.variable? around.script = some decl) :
    (around.sweep true state).notes.descriptor? callee.id = some (.deferred decl) := by
  obtain ⟨place, moment, typed, judged⟩ := fits.sweep_judges static older layers inside
    ((Shape.isExpression_iff _).1 (Shape.isExpression_of_isReference reference))
  have isReference : place.node.shape.isReference := judged.same ▸ reference
  obtain ⟨stands, found⟩ := Option.isSome_iff_exists.1 (judged.judges.isSome_binding isReference)
  obtain rfl := Option.some.inj ((judged.noted.binding stands found).symm.trans bound)
  refine Descriptor.eq_some_deferred_of_beq (judged.noted.descriptor _ ?_)
  rcases judged.judges.defers found means with known | deferred
  · rw [known, array.defers]
    rfl
  · exact deferred

theorem sweep_indexes (fits : state.Fits around roles) (static : around.Fits roles bound)
    (older : bound ≤ state.fresh) (layers : state.root.InLayers) (array : around.KnowsArray decl desc)
    (inside : node ∈ (around.sweep true state).root.descendants) {parens : Bool} {args : List Node}
    (shape : node.shape = .call parens callee args) (indexed : args ≠ [])
    (reference : callee.shape.isReference)
    (bound : (around.sweep true state).notes.binding? callee.id = some binding)
    (means : binding.variable? around.script = some decl) :
    (around.sweep true state).notes.descriptor? node.id ==
      some (.type (desc.withRank (desc.rank - 1))) := by
  have isPart : callee ∈ node.children := by simp [Node.children, shape, Shape.children]
  have deferred := fits.sweep_defers static older layers array
    (Node.mem_descendants_trans (Node.child_mem_descendants isPart) inside) reference bound means
  obtain ⟨place, moment, typed, judged⟩ :=
    fits.sweep_judges static older layers inside (by rw [shape]; rfl)
  have isCall : place.node.shape = .call parens callee args := judged.same ▸ shape
  refine judged.noted.descriptor _ ?_
  cases judged.judges with
  | declared needed => simp [Surroundings.declaresAt, Node.nameText?, isCall, Shape.nameText?] at needed
  | typed =>
    have followed : around.followed? moment.notes callee.id = some (.type desc) :=
      Surroundings.followed?_of_deferred ((judged.descriptor callee isPart).symm.trans deferred)
        (array.leads judged.fits.declared)
    unfold Surroundings.typed
    simp only [isCall]
    exact Surroundings.callTyped_array true followed array.array indexed
      ((judged.binding callee isPart).symm.trans bound) means array.plain

end ResolutionState.Fits

section Resolve

variable {symbols : SymbolTable} {options : MigrationOptions} {store : ScriptStore}
  {cache : MemberMemo} {id : ScriptId} {script : Script} {draft : Draft}

theorem Draft.Formed.declared_of_place (formed : draft.Formed) {place : Place}
    (placed : place ∈ draft.root.placesUp) {type : Descriptor}
    (declares : (Surroundings.forScript symbols options store id script draft).declaredType?
      (place.types.map Node.id) place.node = some type) :
    (Surroundings.forScript symbols options store id script draft).declared[place.node.id]? =
      some type := by
  have listed : (place.node, place.types.map Node.id) ∈ draft.declarations :=
    List.mem_append_left _ (List.mem_map.2 ⟨place, Node.mem_places_iff.2 placed, rfl⟩)
  rw [Surroundings.forScript, Surroundings.declaredType?_withDeclared] at declares
  obtain ⟨found, isFound⟩ := Option.isSome_iff_exists.1 (Surroundings.isSome_declared listed
    (Option.isSome_iff_exists.2 ⟨_, declares⟩))
  obtain ⟨entry, among, same, declared⟩ := Surroundings.declared_cases isFound
  have isEntry : entry = (place.node, place.types.map Node.id) := by
    rcases List.mem_append.1 among with inTree | retired
    · obtain ⟨other, placed', rfl⟩ := List.mem_map.1 inTree
      obtain rfl := formed.distinct.place_unique (Node.mem_places_iff.1 placed') placed same
      rfl
    · obtain ⟨gone, isGone, rfl⟩ := List.mem_map.1 retired
      refine absurd ?_ (formed.retired gone isGone gone.node gone.node.mem_descendants_self).2
      exact same ▸ List.mem_map.2 ⟨_, Node.node_mem_of_mem_placesUp placed, rfl⟩
  rw [isEntry] at declared
  exact isFound.trans (declared.symm.trans declares)

variable {decl : DeclRef} {base : BaseType} {rank : Nat}

theorem Draft.Formed.elementType_scalar (formed : draft.Formed) (place : Place) :
    ((Surroundings.forScript symbols options store id script draft).elementType place).IsScalar := by
  rw [Surroundings.forScript, Surroundings.elementType, Surroundings.typeNamed_withDeclared]
  exact Surroundings.elementType_scalar formed.knowsTypes place

theorem Draft.Formed.declared_array (formed : draft.Formed) {around : Surroundings}
    (isAround : around = .forScript symbols options store id script draft) {place : Place}
    (placed : place ∈ draft.root.placesUp) (array : 1 ≤ place.node.shape.dimensions)
    (element : around.elementType place = .type { base }) :
    around.declared[place.node.id]? =
      some (.type { base, rank := place.node.shape.dimensions }) := by
  subst isAround
  refine formed.declared_of_place placed ((Surroundings.declaredType?_of_dimensions array).trans ?_)
  rw [element, Descriptor.withRank_scalar]

theorem Draft.Formed.knowsArray (formed : draft.Formed) {around : Surroundings}
    (isAround : around = .forScript symbols options store id script draft)
    (declares : around.DeclaresArray draft.root decl base rank) :
    around.KnowsArray decl { base, rank } := by
  cases declares with
  | @own place base placed array element =>
    have found : around.node? ⟨around.script, place.node.id⟩ = some place.node := by
      rw [Surroundings.node?_own, isAround]
      exact Draft.nodesById_of_mem formed.distinct (Node.node_mem_of_mem_placesUp placed)
    obtain ⟨noType, plain⟩ := Surroundings.plain_of_dimensions found array
    have sees : around.sees around.script := by simp [Surroundings.sees]
    refine ⟨array, by simp [Surroundings.declDescriptor?, sees, noType], plain, fun kept => ?_⟩
    simpa [Surroundings.lookup, Surroundings.descriptorOf?, Notes.descriptor?] using
      kept (formed.declared_array isAround placed array element)
  | other differs found array described =>
    obtain ⟨noType, plain⟩ := Surroundings.plain_of_dimensions found array
    obtain ⟨view, seen, -⟩ := Option.bind_eq_some_iff.1 described
    have sees : around.sees decl.script := by
      simp [Surroundings.sees, Std.HashMap.contains_eq_isSome_getElem?, seen]
    refine ⟨array, by simp [Surroundings.declDescriptor?, sees, noType], plain, fun _ => ?_⟩
    simpa [Surroundings.lookup, Surroundings.descriptorOf?, differs] using described

/-- In a resolved script every declared array is described by its elements and its dimensions. A call of
what stands for an array, with arguments, is described by the same elements and one dimension less, so
that it is an element exactly if the array has one dimension. -/
theorem ScriptStore.resolve_indexes (symbols : SymbolTable) (options : MigrationOptions)
    (cache : MemberMemo) (listed : store.get? id = some script)
    (read : script.draft? = some draft) (prepared : draft.Prepared) :
    ∃ resolved, (store.resolve symbols options cache id).store.draft? id = some resolved ∧
      ∀ around, around = Surroundings.forScript symbols options store id script draft →
        (∀ place ∈ draft.root.placesUp, 1 ≤ place.node.shape.dimensions →
          ∃ base, around.elementType place = .type { base } ∧
            resolved.notes.descriptor? place.node.id =
              some (.type { base, rank := place.node.shape.dimensions })) ∧
        ∀ decl base rank, around.DeclaresArray draft.root decl base rank →
          ∀ node ∈ resolved.root.descendants, ∀ parens callee args binding,
            node.shape = .call parens callee args → args ≠ [] → callee.shape.isReference →
            resolved.notes.binding? callee.id = some binding → binding.variable? id = some decl →
            ∃ descriptor, resolved.notes.descriptor? node.id = some descriptor ∧
              descriptor == .type { base, rank := rank - 1 } ∧
              (descriptor == .type { base } ↔ rank = 1) := by
  have formed := prepared.formed
  obtain ⟨resolved, found, concludes⟩ :=
    resolve_concludes symbols options cache listed read prepared
  refine ⟨resolved, found, fun around isAround => ?_⟩
  obtain ⟨static, knows, underway, keeps, last, lastKeeps, rfl⟩ := concludes around isAround
  refine ⟨fun place placed array => ?_, fun decl base rank declares node inside parens callee args
    binding shape indexed reference bound means => ?_⟩
  · obtain ⟨base, element⟩ := isAround ▸ formed.elementType_scalar place
    have declared : around.declared[place.node.id]? = _ :=
      formed.declared_array isAround placed array element
    have small : place.node.id.index < draft.fresh :=
      formed.small _ (Node.node_mem_of_mem_placesUp placed)
    refine ⟨base, element, ?_⟩
    rw [(Surroundings.notes_settle_old draft knows (Nat.lt_of_lt_of_le small last.older)).1,
      last.fits.declared declared]
    rfl
  · have array := formed.knowsArray isAround declares
    have lies := (Surroundings.mem_settle_of_expression lastKeeps.houses.layers knows
      (by rw [shape]; rfl)).1 inside
    have isScript : around.script = id := by rw [isAround]; rfl
    have same := underway.fits.sweep_indexes static underway.older keeps.houses.layers array lies shape
      indexed reference ((Surroundings.binding?_settle _).symm.trans bound) (isScript.symm ▸ means)
    obtain ⟨desc, noted, sameType⟩ := Descriptor.exists_type_of_beq same
    refine ⟨.type desc, ?_, sameType, ?_⟩
    · rw [(Surroundings.notes_settle_old draft knows (last.fits.tree.small node lies)).1, noted]
      rfl
    · obtain ⟨isBase, isRank, isNullable⟩ := (DataType.beq_iff _ _).1 sameType
      have positive : 1 ≤ rank := array.array
      constructor
      · intro isElement
        have isZero : desc.rank = 0 := ((DataType.beq_iff _ _).1 isElement).2.1
        change desc.rank = rank - 1 at isRank
        omega
      · rintro rfl
        exact sameType

def tableText : String := "Sub S()\n Dim a(3, 4) As Long\n y = a(1, 2)\nEnd Sub\n"

theorem exists_table : ∃ module table, parseModule tableText "Table" = .ok module ∧
    table ∈ module.root.descendants ∧ table.shape.dimensions = 2 ∧
    table.shape.typeName? = some "Long" := by
  have reads : (parseModule tableText "Table").toOption.any fun module => module.root.children.any
      fun method => method.children.any fun body => body.children.any fun stmt =>
        stmt.shape.dimensions == 2 && stmt.shape.typeName? == some "Long" := by
    decide +kernel
  obtain ⟨module, parsed⟩ := exists_module (Option.isSome_of_any reads)
  rw [parsed, Except.toOption, Option.any_some] at reads
  obtain ⟨method, isMethod, reads⟩ := List.any_eq_true.1 reads
  obtain ⟨body, isBody, reads⟩ := List.any_eq_true.1 reads
  obtain ⟨table, isStmt, reads⟩ := List.any_eq_true.1 reads
  obtain ⟨dimensions, isLong⟩ := Bool.and_eq_true_iff.1 reads
  exact ⟨module, table, parsed, Node.mem_descendants_of_child isMethod
    (Node.mem_descendants_of_child isBody (Node.child_mem_descendants isStmt)), eq_of_beq dimensions,
    eq_of_beq isLong⟩

theorem ScriptStore.resolve_indexes_table : ∃ module resolved table,
    parseModule tableText "Table" = .ok module ∧
    ((ScriptStore.alone module).resolve .empty {} (.withCapacity 8) ⟨0⟩).store.draft? ⟨0⟩ =
      some resolved ∧
    table ∈ module.root.descendants ∧ table.shape.dimensions = 2 ∧
    resolved.notes.descriptor? table.id = some (.type { base := .primitive .int32, rank := 2 }) ∧
    ∀ node ∈ resolved.root.descendants, ∀ parens callee args,
      node.shape = .call parens callee args → args ≠ [] → callee.shape.isReference →
      resolved.notes.binding? callee.id = some (.localVar table.id) →
      ∃ descriptor, resolved.notes.descriptor? node.id = some descriptor ∧
        descriptor == .type { base := .primitive .int32, rank := 1 } ∧
        (descriptor == .ofPrimitive .int32) = false := by
  obtain ⟨module, table, parsed, inside, dimensions, isLong⟩ := exists_table
  have prepared : (Draft.ofModule module).Prepared := .read parsed
  obtain ⟨resolved, found, indexes⟩ := ScriptStore.resolve_indexes .empty {} (.withCapacity 8)
    (show (ScriptStore.alone module).get? ⟨0⟩ = some _ from rfl) rfl prepared
  obtain ⟨arrays, calls⟩ := indexes _ rfl
  obtain ⟨place, placed, rfl⟩ := Node.exists_mem_placesUp inside
  have element {around : Surroundings} :
      around.elementType place = .type { base := .primitive .int32 } := by
    have isKind : Primitive.ofDeclaredName? "Long" = some .int32 := by decide +kernel
    rw [Surroundings.elementType, isLong, Option.map_some, Option.getD_some, Surroundings.typeNamed,
      isKind]
    rfl
  have array : 1 ≤ place.node.shape.dimensions := by omega
  obtain ⟨base, isBase, described⟩ := arrays place placed array
  obtain rfl := (DataType.mk.inj (Descriptor.type.inj (isBase.symm.trans element))).1
  rw [dimensions] at described
  refine ⟨module, resolved, place.node, parsed, found, inside, dimensions, described,
    fun node lies parens callee args shape indexed reference bound => ?_⟩
  obtain ⟨descriptor, noted, same, isElement⟩ := calls _ _ _ (.own placed array element) node lies
    parens callee args _ shape indexed reference bound rfl
  rw [dimensions] at same isElement
  exact ⟨descriptor, noted, same,
    Bool.eq_false_iff.2 fun scalar => absurd (isElement.1 scalar) (by decide)⟩

end Resolve

end ScriptMigration
