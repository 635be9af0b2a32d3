import ScriptMigration.Proofs.Draft.Formed
import ScriptMigration.Proofs.Resolution.Sweep
import ScriptMigration.Proofs.Scope.Members
import ScriptMigration.Proofs.Syntax.Tree
import ScriptMigration.Resolution.Resolve

/-! What holds when a resolution begins. In a draft that is well formed, what the surroundings of its
script tell about its nodes agrees with the roles that these have in the tree. -/
namespace ScriptMigration

/-- The role of a node in a tree. What is not in the tree takes what flows into it. -/
def Node.roleOf (root : Node) (id : NodeId) : Role :=
  ((root.descendants.find? (·.id == id)).map (·.shape.family.role)).getD .other

namespace Node

variable {root node : Node}

theorem roleOf_of_mem (distinct : root.Distinct) (inside : node ∈ root.descendants) :
    root.roleOf node.id = node.shape.family.role := by
  have found : root.descendants.find? (·.id == node.id) = some node := by
    cases taken : root.descendants.find? (·.id == node.id) with
    | none =>
      have missed := List.find?_eq_none.1 taken node inside
      simp at missed
    | some other =>
      have same : other.id = node.id := by simpa using List.find?_some taken
      rw [distinct.eq_of_id_eq (List.mem_of_find?_eq_some taken) inside same]
  simp [roleOf, found]

theorem roleOf_of_not_mem {id : NodeId} (absent : id ∉ root.descendants.map Node.id) :
    root.roleOf id = .other := by
  have missed : root.descendants.find? (·.id == id) = none := by
    refine List.find?_eq_none.2 fun other inside same => absent ?_
    exact List.mem_map.2 ⟨other, inside, by simpa using same⟩
  simp [roleOf, missed]

theorem node_mem_of_mem_places {place : Place} (found : place ∈ root.places) :
    place.node ∈ root.descendants := node_mem_of_mem_placesUp (mem_places_iff.1 found)

theorem mem_ownDescendants {below : Node} (found : below ∈ node.ownDescendants) :
    below ∈ node.descendants := by
  induction node using Node.induction with
  | step node ih =>
    rw [ownDescendants_eq] at found
    rcases List.mem_cons.1 found with rfl | later
    · exact mem_descendants_self _
    · obtain ⟨part, inside, deeper⟩ := List.mem_flatMap.1 later
      split at deeper
      · obtain rfl := List.mem_singleton.1 deeper
        exact child_mem_descendants inside
      · exact mem_descendants_of_child inside (ih part inside deeper)

end Node

theorem Node.role_of_memberName? {member : Node} (named : member.memberName?.isSome) :
    member.shape.family.role ≠ .expression := by
  unfold memberName? at named
  cases shape : member.shape with
  | type | field | method | property | param | block | localVar => simp [Shape.family, Shape.Family.role]
  | _ => simp [shape, Shape.declName?] at named

theorem Node.role_of_paramDecl? {param : Node} (isParam : param.paramDecl?.isSome) :
    param.shape.family.role = .other := by
  unfold paramDecl? at isParam
  split at isParam
  · rename_i decl shape
    rw [shape]
    rfl
  · simp at isParam

namespace LocalScope

structure HeldBy (decl : MethodDecl Node) (scope : LocalScope) : Prop where
  locals : ∀ {name id}, scope.local? name = some id →
    ∃ node ∈ decl.body.descendants, node.id = id ∧ node.shape.family = .localVar
  params : ∀ {name id}, scope.param? name = some id →
    ∃ param ∈ decl.params, param.id = id ∧ param.paramDecl?.isSome

theorem param?_addParam_cases {scope : LocalScope} {name other : String} {id found : NodeId}
    (taken : (scope.addParam name id).param? other = some found) :
    FoldedName.of name = .of other ∧ found = id ∨ scope.param? other = some found := by
  simp only [param?, addParam, Std.HashMap.getElem?_insertIfNew] at taken
  split at taken
  · rename_i same
    exact .inl ⟨eq_of_beq same.1, (Option.some.inj taken).symm⟩
  · exact .inr taken

theorem ofDecl_held (decl : MethodDecl Node) : (ofDecl decl).HeldBy decl := by
  unfold ofDecl
  refine List.foldlRecOn _ _ (List.foldlRecOn _ _ ?_ ?_) ?_
  · constructor <;>
    · intro name id taken
      simp [local?, param?] at taken
  · intro scope held param listed
    split
    · rename_i entry isParam
      refine ⟨fun taken => held.locals taken, fun taken => ?_⟩
      rcases param?_addParam_cases taken with ⟨_, rfl⟩ | old
      · exact ⟨param, listed, rfl, by simp [isParam]⟩
      · exact held.params old
    · exact held
  · intro scope held node listed
    split
    · rename_i entry shape
      refine ⟨fun taken => ?_, fun taken => held.params taken⟩
      rcases local?_addLocal_cases taken with ⟨_, rfl⟩ | old
      · exact ⟨node, Node.mem_ownDescendants listed, rfl, by rw [shape]; rfl⟩
      · exact held.locals old
    · exact held

end LocalScope

namespace ScopeIndex

variable {root : Node} {id : NodeId}

structure HeldBy (root : Node) (index : ScopeIndex) : Prop where
  types : ∀ (id : NodeId) (scope : MemberScope), index.types[id]? = some scope →
    ∃ node ∈ root.descendants, ∃ decl outer, node.id = id ∧ node.shape = .type decl ∧
      scope = .ofDecl decl outer ∧ ∀ owner, outer = some owner →
        ∃ other ∈ root.descendants, other.id = owner ∧ other.shape.isType
  bodies : ∀ (id : NodeId) (scope : LocalScope), index.bodies[id]? = some scope →
    ∃ node ∈ root.descendants, ∃ decl, node.id = id ∧ node.shape = .method decl ∧
      scope = .ofDecl decl

theorem ofTree_held (root : Node) : (ofTree root).HeldBy root := by
  unfold ofTree
  refine List.foldlRecOn _ _ ?_ ?_
  · constructor <;>
    · intro id scope taken
      simp at taken
  · rintro index ⟨types, bodies⟩ place listed
    have here := Node.node_mem_of_mem_places listed
    unfold addPlace
    split
    · rename_i decl shape
      refine ⟨fun id scope taken => ?_, bodies⟩
      rw [Std.HashMap.getElem?_insert] at taken
      split at taken
      · rename_i same
        obtain rfl := Option.some.inj taken
        refine ⟨place.node, here, decl, _, by simpa using same, shape, rfl, fun owner isOwner => ?_⟩
        obtain ⟨other, isOther, rfl⟩ := Option.map_eq_some_iff.1 isOwner
        have isType := List.find?_some isOther
        exact ⟨other, Node.around_subset (Node.mem_places_iff.1 listed)
          (List.mem_of_find?_eq_some isOther), rfl, isType⟩
      · exact types id scope taken
    · rename_i decl shape
      refine ⟨types, fun id scope taken => ?_⟩
      rw [Std.HashMap.getElem?_insert] at taken
      split at taken
      · rename_i same
        obtain rfl := Option.some.inj taken
        exact ⟨place.node, here, decl, by simpa using same, shape, rfl⟩
      · exact bodies id scope taken
    · exact ⟨types, bodies⟩

theorem types_of_mem (distinct : root.Distinct) {place : Place} (placed : place ∈ root.placesUp)
    {decl : TypeDecl Node} (shape : place.node.shape = .type decl) :
    (ofTree root).types[place.node.id]? = some (.ofDecl decl (place.type?.map Node.id)) := by
  have same {other : Place} (listed : other ∈ root.places) (equal : other.node.id = place.node.id) :
      other = place := distinct.place_unique (Node.mem_places_iff.1 listed) placed equal
  have later (places : List Place) (index : ScopeIndex)
      (among : ∀ other ∈ places, other ∈ root.places)
      (known : place ∈ places ∨ index.types[place.node.id]? =
        some (.ofDecl decl (place.type?.map Node.id))) :
      (places.foldl addPlace index).types[place.node.id]? =
        some (.ofDecl decl (place.type?.map Node.id)) := by
    induction places generalizing index with
    | nil => exact known.resolve_left List.not_mem_nil
    | cons first rest ih =>
      refine ih _ (fun other listed => among other (List.mem_cons_of_mem _ listed)) ?_
      rcases known with listed | known
      · rcases List.mem_cons.1 listed with rfl | listed
        · refine .inr ?_
          simp [addPlace, shape]
        · exact .inl listed
      · refine .inr ?_
        unfold addPlace
        split
        · rename_i other isType
          rw [Std.HashMap.getElem?_insert]
          split
          · rename_i equal
            obtain rfl := same (among first List.mem_cons_self) (by simpa using equal)
            rw [shape] at isType
            cases isType
            rfl
          · exact known
        · exact known
        · exact known
  exact later _ _ (fun _ listed => listed) (.inl (Node.mem_places_iff.2 placed))

theorem mem_of_find? {name : String} {member : Node}
    (found : (ofTree root).types[id]?.bind (·.find? name) = some member) :
    member ∈ root.descendants ∧ member.memberName?.isSome := by
  obtain ⟨scope, listed, taken⟩ := Option.bind_eq_some_iff.1 found
  obtain ⟨node, inside, decl, outer, _, shape, rfl, _⟩ := (ofTree_held root).types id scope listed
  obtain ⟨among, named⟩ := MemberScope.mem_of_find?_ofDecl taken
  have part : member ∈ node.children := by
    rw [Node.children, shape]
    exact among
  exact ⟨Node.mem_descendants_trans (Node.child_mem_descendants part) inside, named⟩

theorem type_of_outer {owner : NodeId}
    (found : (ofTree root).types[id]?.bind (·.outer) = some owner) :
    ∃ other ∈ root.descendants, other.id = owner ∧ other.shape.isType := by
  obtain ⟨scope, listed, taken⟩ := Option.bind_eq_some_iff.1 found
  obtain ⟨_, _, decl, outer, _, _, rfl, isType⟩ := (ofTree_held root).types id scope listed
  rw [MemberScope.outer_ofDecl] at taken
  exact isType owner taken

theorem family_of_body {scope : LocalScope} {name : String} {decl : NodeId}
    (listed : (ofTree root).bodies[id]? = some scope)
    (found : scope.local? name = some decl ∨ scope.param? name = some decl) :
    ∃ node ∈ root.descendants, node.id = decl ∧ node.shape.family.role = .other := by
  obtain ⟨node, inside, method, _, shape, rfl⟩ := (ofTree_held root).bodies id scope listed
  have part {other : Node} (among : other ∈ method.params ++ [method.body]) :
      other ∈ root.descendants := by
    refine Node.mem_descendants_trans (Node.child_mem_descendants ?_) inside
    rw [Node.children, shape]
    exact among
  rcases found with isLocal | isParam
  · obtain ⟨below, lies, same, family⟩ := (LocalScope.ofDecl_held method).locals isLocal
    refine ⟨below, Node.mem_descendants_trans lies (part (by simp)), same, ?_⟩
    rw [family]
    rfl
  · obtain ⟨param, among, same, isDecl⟩ := (LocalScope.ofDecl_held method).params isParam
    refine ⟨param, part (List.mem_append_left _ among), same, Node.role_of_paramDecl? isDecl⟩

end ScopeIndex

namespace Draft

variable {draft : Draft} {id : NodeId} {node : Node}

theorem nodesById_cases (found : draft.nodesById[id]? = some node) : node.id = id ∧
    (node ∈ draft.root.descendants ∨ ∃ entry ∈ draft.retired, entry.node = node) := by
  have holds : ∀ (id : NodeId) (node : Node), draft.nodesById[id]? = some node → node.id = id ∧
      (node ∈ draft.root.descendants ∨ ∃ entry ∈ draft.retired, entry.node = node) := by
    unfold nodesById
    refine List.foldlRecOn (motive := fun table : Std.HashMap NodeId Node =>
      ∀ (id : NodeId) (node : Node), table[id]? = some node → node.id = id ∧
        (node ∈ draft.root.descendants ∨ ∃ entry ∈ draft.retired, entry.node = node)) _ _
      (List.foldlRecOn (motive := fun table : Std.HashMap NodeId Node =>
        ∀ (id : NodeId) (node : Node), table[id]? = some node → node.id = id ∧
          (node ∈ draft.root.descendants ∨ ∃ entry ∈ draft.retired, entry.node = node)) _ _ ?_ ?_) ?_
    · intro id node taken
      simp at taken
    · intro table known entry listed id node taken
      rw [Std.HashMap.getElem?_insert] at taken
      split at taken
      · rename_i same
        obtain rfl := Option.some.inj taken
        exact ⟨by simpa using same, .inr ⟨entry, listed, rfl⟩⟩
      · exact known id node taken
    · intro table known other listed id node taken
      rw [Std.HashMap.getElem?_insert] at taken
      split at taken
      · rename_i same
        obtain rfl := Option.some.inj taken
        exact ⟨by simpa using same, .inl listed⟩
      · exact known id node taken
  exact holds id node found

theorem nodesById_of_mem (distinct : draft.root.Distinct) (inside : node ∈ draft.root.descendants) :
    draft.nodesById[node.id]? = some node :=
  distinct.getElem?_foldl_insert inside _ _ (fun _ listed => listed) (.inl inside)

end Draft

namespace IncludedNames

theorem declared_of_find? {scripts : List (ScriptId × Node)} {name : String} {decl : DeclRef}
    (found : (ofScripts scripts).find? name = some decl) :
    ∃ entry ∈ scripts, entry.1 = decl.script ∧ ∃ type, entry.2.shape = .type type ∧
      (entry.2.id = decl.node ∨ ∃ member ∈ type.members, member.id = decl.node) := by
  have holds : ∀ (key : FoldedName) (decl : DeclRef), (ofScripts scripts).decls[key]? = some decl →
      ∃ entry ∈ scripts, ∃ spelt, (spelt, decl) ∈ declared entry.1 entry.2 := by
    unfold ofScripts
    refine List.foldlRecOn (motive := fun scope : IncludedNames => ∀ (key : FoldedName)
      (decl : DeclRef), scope.decls[key]? = some decl →
        ∃ entry ∈ scripts, ∃ spelt, (spelt, decl) ∈ declared entry.1 entry.2) _ _ ?_ ?_
    · intro key decl taken
      simp at taken
    · rintro scope known ⟨spelt, added⟩ listed key decl taken
      simp only [add, Std.HashMap.getElem?_insertIfNew] at taken
      split at taken
      · obtain rfl := Option.some.inj taken
        obtain ⟨entry, among, declares⟩ := List.mem_flatMap.1 listed
        exact ⟨entry, among, spelt, declares⟩
      · exact known key decl taken
  obtain ⟨⟨script, root⟩, among, spelt, declares⟩ := holds _ decl found
  refine ⟨(script, root), among, ?_⟩
  dsimp only [declared] at declares
  split at declares
  · simp at declares
  · rename_i type isType
    have shape := Node.shape_of_typeDecl? isType
    rcases List.mem_cons.1 declares with same | later
    · obtain rfl := (Prod.mk.inj same).2
      exact ⟨rfl, type, shape, .inl rfl⟩
    · obtain ⟨member, inside, named⟩ := List.mem_filterMap.1 later
      obtain ⟨_, _, same⟩ := Option.map_eq_some_iff.1 named
      obtain rfl := (Prod.mk.inj same).2
      exact ⟨rfl, type, shape, .inr ⟨member, inside, rfl⟩⟩

end IncludedNames

namespace Descriptor

def IsScalar (descriptor : Descriptor) : Prop := ∃ base, descriptor = .type { base }

theorem withRank_scalar (base : BaseType) (rank : Nat) :
    (Descriptor.type { base }).withRank rank = .type { base, rank } := by
  cases rank <;> rfl

end Descriptor

namespace Surroundings

variable {around : Surroundings}

theorem node?_own (around : Surroundings) (id : NodeId) :
    around.node? ⟨around.script, id⟩ = around.nodes[id]? := by
  simp [node?]

theorem declDescriptor?_scalar {decl : DeclRef} {descriptor : Descriptor}
    (isType : ((around.node? decl).bind Node.typeDecl?).isSome)
    (found : around.declDescriptor? decl = some descriptor) : descriptor.IsScalar := by
  unfold declDescriptor? at found
  split at found
  · obtain ⟨type, known⟩ := Option.isSome_iff_exists.1 isType
    rw [known] at found
    obtain rfl := Option.some.inj found
    exact ⟨_, rfl⟩
  · simp at found

def KnowsTypes (around : Surroundings) : Prop :=
  ∀ (type : NodeId) (name : String) (nested : Node),
    around.types[type]?.bind (·.findType? name) = some nested →
      ((around.node? ⟨around.script, nested.id⟩).bind Node.typeDecl?).isSome

theorem typeAround?_scalar (knows : around.KnowsTypes) {name : String} {context : List NodeId}
    {descriptor : Descriptor} (found : around.typeAround? name context = some descriptor) :
    descriptor.IsScalar := by
  induction context with
  | nil => simp [typeAround?] at found
  | cons type outer ih =>
    simp only [typeAround?] at found
    split at found
    · simp at found
    · rename_i scope listed
      split at found
      · obtain rfl := Option.some.inj found
        exact ⟨_, rfl⟩
      · split at found
        · rename_i nested isNested
          obtain rfl := Option.some.inj found
          have isType := knows type name nested (by simp [listed, isNested])
          cases named : around.declDescriptor? ⟨around.script, nested.id⟩ with
          | none => exact ⟨_, rfl⟩
          | some descriptor => exact declDescriptor?_scalar isType named
        · exact ih found

theorem typeNamed_scalar (knows : around.KnowsTypes) (context : List NodeId) (name : String) :
    (around.typeNamed context name).IsScalar := by
  unfold typeNamed
  dsimp only
  split
  · exact ⟨_, rfl⟩
  · cases found : (around.typeAround? name context).or
      ((((around.dependencies.find? name).filter fun decl =>
        (around.node? decl).any (·.shape.isType)).bind around.declDescriptor?).or
          ((around.symbols.typeNamed? name).map .ofExternal)) with
    | none => exact ⟨_, rfl⟩
    | some descriptor =>
      rcases Option.or_eq_some_iff.1 found with inTypes | ⟨_, later⟩
      · exact typeAround?_scalar knows inTypes
      · rcases Option.or_eq_some_iff.1 later with included | ⟨_, external⟩
        · obtain ⟨decl, taken, named⟩ := Option.bind_eq_some_iff.1 included
          obtain ⟨_, isType⟩ := Option.filter_eq_some_iff.1 taken
          refine declDescriptor?_scalar ?_ named
          rw [Option.any_eq_true] at isType
          obtain ⟨node, known, shape⟩ := isType
          rw [known]
          unfold Node.typeDecl?
          cases isShape : node.shape with
          | type decl => simp [isShape]
          | _ => simp [isShape, Shape.isType] at shape
        · obtain ⟨type, _, rfl⟩ := Option.map_eq_some_iff.1 external
          exact ⟨_, rfl⟩

theorem typeNamed_known (knows : around.KnowsTypes) (context : List NodeId) (name : String) :
    (around.typeNamed context name).isDeferred = false := by
  obtain ⟨base, isType⟩ := typeNamed_scalar knows context name
  rw [isType]
  rfl

theorem withRank_known {descriptor : Descriptor} (known : descriptor.isDeferred = false)
    (rank : Nat) : (descriptor.withRank rank).isDeferred = false := by
  unfold Descriptor.withRank
  split
  · split <;> rfl
  · exact known

theorem declaredType?_cases (knows : around.KnowsTypes) {context : List NodeId} {node : Node}
    {type : Descriptor} (found : around.declaredType? context node = some type) :
    node.shape.family.role = .other ∧ type.isDeferred = false := by
  have annotated {typeName : Option String} {rank : Nat}
      (taken : around.annotated? context typeName rank = some type) : type.isDeferred = false := by
    unfold annotated? at taken
    split at taken
    · obtain rfl := Option.some.inj taken
      exact withRank_known (typeNamed_known knows _ _) _
    · split at taken
      · simp at taken
      · obtain rfl := Option.some.inj taken
        exact withRank_known rfl _
  unfold declaredType? at found
  cases shape : node.shape with
  | type decl =>
    simp only [shape] at found
    obtain rfl := Option.some.inj found
    exact ⟨rfl, rfl⟩
  | field decl | localVar decl | param decl =>
    simp only [shape] at found
    exact ⟨rfl, annotated found⟩
  | method decl =>
    simp only [shape] at found
    split at found
    · obtain ⟨name, _, rfl⟩ := Option.map_eq_some_iff.1 found
      exact ⟨rfl, typeNamed_known knows _ _⟩
    · obtain rfl := Option.some.inj found
      exact ⟨rfl, rfl⟩
  | _ => simp [shape] at found

theorem declared_cases {draft : Draft} {id : NodeId} {type : Descriptor}
    (found : (around.withDeclared draft).declared[id]? = some type) :
    ∃ entry ∈ draft.declarations, entry.1.id = id ∧
      around.declaredType? entry.2 entry.1 = some type := by
  have holds : ∀ (id : NodeId) (type : Descriptor),
      (around.withDeclared draft).declared[id]? = some type →
        ∃ entry ∈ draft.declarations, entry.1.id = id ∧
          around.declaredType? entry.2 entry.1 = some type := by
    unfold withDeclared
    refine List.foldlRecOn (motive := fun table : Std.HashMap NodeId Descriptor =>
      ∀ (id : NodeId) (type : Descriptor), table[id]? = some type →
        ∃ entry ∈ draft.declarations, entry.1.id = id ∧
          around.declaredType? entry.2 entry.1 = some type) _ _ ?_ ?_
    · intro id type taken
      simp at taken
    · rintro table known ⟨node, context⟩ listed id type taken
      dsimp only at taken
      split at taken
      · rename_i new isNew
        rw [Std.HashMap.getElem?_insert] at taken
        split at taken
        · rename_i same
          obtain rfl := Option.some.inj taken
          exact ⟨(node, context), listed, by simpa using same, isNew⟩
        · exact known id type taken
      · exact known id type taken
  exact holds id type found

end Surroundings

/-- The surroundings in which a script of a store is resolved. -/
def Surroundings.forScript (symbols : SymbolTable) (options : MigrationOptions)
    (store : ScriptStore) (id : ScriptId) (script : Script) (draft : Draft) : Surroundings :=
  (Surroundings.ofScript symbols options store id script draft).withDeclared draft

namespace Draft.Formed

variable {symbols : SymbolTable} {options : MigrationOptions} {store : ScriptStore}
  {id : ScriptId} {script : Script} {draft : Draft}

theorem role_of_mem (formed : draft.Formed) {node : Node} (inside : node ∈ draft.root.descendants) :
    draft.root.roleOf node.id = node.shape.family.role :=
  Node.roleOf_of_mem formed.distinct inside

theorem plain_of_mem (formed : draft.Formed) {node : Node} (inside : node ∈ draft.root.descendants)
    (role : node.shape.family.role = .other) :
    Role.Plain draft.root.roleOf draft.fresh node.id :=
  ⟨(formed.role_of_mem inside).trans role, formed.small node inside⟩

theorem plain_of_retired (formed : draft.Formed) {entry : Retired} (listed : entry ∈ draft.retired)
    {node : Node} (inside : node ∈ entry.node.descendants) :
    Role.Plain draft.root.roleOf draft.fresh node.id := by
  obtain ⟨small, absent⟩ := formed.retired entry listed node inside
  exact ⟨Node.roleOf_of_not_mem absent, small⟩

theorem knowsTypes (formed : draft.Formed) :
    (Surroundings.ofScript symbols options store id script draft).KnowsTypes := by
  intro type name nested found
  obtain ⟨scope, listed, taken⟩ := Option.bind_eq_some_iff.1 found
  obtain ⟨named, isType⟩ := Option.filter_eq_some_iff.1 taken
  have member : (ScopeIndex.ofTree draft.root).types[type]?.bind (·.find? name) = some nested :=
    Option.bind_eq_some_iff.2 ⟨scope, listed, named⟩
  have inside := (ScopeIndex.mem_of_find? member).1
  have known := Draft.nodesById_of_mem formed.distinct inside
  have seen := (Surroundings.ofScript symbols options store id script draft).node?_own nested.id
  rw [seen, show (Surroundings.ofScript symbols options store id script draft).nodes[nested.id]? =
    some nested from known]
  unfold Node.typeDecl?
  cases isShape : nested.shape with
  | type decl => simp [isShape]
  | _ => simp [isShape, Shape.isType] at isType

/-- What the surroundings of a script tell about its nodes agrees with their roles in its tree. -/
theorem surroundings_fit (formed : draft.Formed) :
    (Surroundings.forScript symbols options store id script draft).Fits draft.root.roleOf
      draft.fresh := by
  constructor
  · intro type name member found
    obtain ⟨inside, named⟩ := ScopeIndex.mem_of_find? found
    rw [formed.role_of_mem inside]
    exact Node.role_of_memberName? named
  · intro id node found isField
    obtain ⟨rfl, inside | ⟨entry, listed, rfl⟩⟩ := Draft.nodesById_cases found
    · refine formed.plain_of_mem inside ?_
      cases shape : node.shape with
      | field decl => rfl
      | _ => simp [shape, Shape.isField] at isField
    · exact formed.plain_of_retired listed entry.node.mem_descendants_self
  · intro id node param decl found isMethod among isParam
    have part : param ∈ node.children := by
      unfold Node.methodDecl? at isMethod
      split at isMethod
      · rename_i shape
        obtain rfl := Option.some.inj isMethod
        rw [Node.children, shape]
        exact List.mem_append_left _ among
      · simp at isMethod
    obtain ⟨rfl, inside | ⟨entry, listed, rfl⟩⟩ := Draft.nodesById_cases found
    · exact formed.plain_of_mem (Node.mem_descendants_trans (Node.child_mem_descendants part) inside)
        (Node.role_of_paramDecl? isParam)
    · exact formed.plain_of_retired listed (Node.child_mem_descendants part)
  · intro id type found
    obtain ⟨⟨node, context⟩, listed, rfl, taken⟩ := Surroundings.declared_cases found
    obtain ⟨role, known⟩ := Surroundings.declaredType?_cases formed.knowsTypes taken
    refine ⟨?_, known⟩
    rcases List.mem_append.1 listed with inTree | retired
    · obtain ⟨place, placed, same⟩ := List.mem_map.1 inTree
      obtain ⟨rfl, _⟩ := Prod.mk.inj same
      exact (formed.role_of_mem (Node.node_mem_of_mem_places placed)).trans role
    · obtain ⟨entry, among, same⟩ := List.mem_map.1 retired
      obtain ⟨rfl, _⟩ := Prod.mk.inj same
      exact (formed.plain_of_retired among entry.node.mem_descendants_self).role
  · intro name decl found
    obtain ⟨⟨other, root⟩, listed, same, _⟩ := IncludedNames.declared_of_find? found
    obtain ⟨dependency, _, taken⟩ := List.mem_filterMap.1 listed
    split at taken
    · simp at taken
    · rename_i differs
      obtain ⟨_, _, entry⟩ := Option.map_eq_some_iff.1 taken
      obtain ⟨rfl, _⟩ := Prod.mk.inj entry
      have apart : dependency ≠ id := by simpa using differs
      rw [← same]
      exact apart

end Draft.Formed

namespace Notes

private def seed (notes : Notes) (entry : NodeId × Descriptor) : Notes :=
  if notes.descriptor? entry.1 == some entry.2 then notes else notes.describe entry.1 entry.2

private theorem seed_of_absent {notes : Notes} {entry : NodeId × Descriptor}
    (absent : notes.descriptor? entry.1 = none) :
    notes.seed entry = notes.describe entry.1 entry.2 := by
  unfold seed
  rw [absent]
  rfl

private theorem descriptor?_foldl_seed (entries : List (NodeId × Descriptor)) (notes : Notes)
    (apart : entries.Pairwise fun left right => left.1 ≠ right.1)
    (absent : ∀ entry ∈ entries, notes.descriptor? entry.1 = none) :
    (∀ entry ∈ entries, (entries.foldl seed notes).descriptor? entry.1 = some entry.2) ∧
      (∀ id, (∀ entry ∈ entries, entry.1 ≠ id) →
        (entries.foldl seed notes).descriptor? id = notes.descriptor? id) ∧
      (entries.foldl seed notes).bindings = notes.bindings := by
  induction entries generalizing notes with
  | nil => simp
  | cons first rest ih =>
    obtain ⟨differs, restApart⟩ := List.pairwise_cons.1 apart
    have seeded := seed_of_absent (absent first List.mem_cons_self)
    obtain ⟨described, others, bindings⟩ := ih (notes.describe first.1 first.2) restApart (by
      intro entry listed
      rw [descriptor?_describe, if_neg (differs entry listed)]
      exact absent entry (List.mem_cons_of_mem _ listed))
    rw [List.foldl_cons, seeded]
    refine ⟨?_, ?_, bindings⟩
    · intro entry listed
      rcases List.mem_cons.1 listed with rfl | later
      · rw [others entry.1 fun other among => (differs other among).symm, descriptor?_describe,
          if_pos rfl]
      · exact described entry later
    · intro id unlisted
      rw [others id fun other among => unlisted other (List.mem_cons_of_mem _ among),
        descriptor?_describe, if_neg (unlisted first List.mem_cons_self)]

end Notes

namespace Surroundings

variable (around : Surroundings) {draft : Draft} (cache : MemberMemo)

theorem start_notes (unknown : draft.notes = {}) :
    (∀ id, (around.start draft cache).notes.descriptor? id = around.declared[id]?) ∧
      ∀ id, (around.start draft cache).notes.binding? id = none := by
  have seeded : (around.start draft cache).notes =
      around.declared.toList.foldl Notes.seed ({} : Notes) := by
    unfold start
    dsimp only
    rw [unknown, Std.HashMap.fold_eq_foldl_toList]
    rfl
  have apart : around.declared.toList.Pairwise fun left right => left.1 ≠ right.1 :=
    around.declared.distinct_keys_toList.imp fun differs => by simpa using differs
  obtain ⟨described, others, bindings⟩ := Notes.descriptor?_foldl_seed around.declared.toList {} apart
    (fun _ _ => by simp [Notes.descriptor?])
  rw [seeded]
  constructor
  · intro id
    cases written : around.declared[id]? with
    | some type =>
      exact described (id, type) (Std.HashMap.mem_toList_iff_getElem?_eq_some.2 written)
    | none =>
      have absent : ({} : Notes).descriptor? id = none := by simp [Notes.descriptor?]
      refine (others id fun entry listed same => ?_).trans absent
      have found := Std.HashMap.mem_toList_iff_getElem?_eq_some.1 listed
      rw [same, written] at found
      exact absurd found (by simp)
  · intro id
    rw [Notes.binding?, bindings]
    simp

end Surroundings

theorem Draft.Formed.role_of_source {draft : Draft} (formed : draft.Formed) {node source : Node}
    (inside : node ∈ draft.root.descendants) {decl : PropertyDecl Node}
    (shape : node.shape = .property decl) (isSource : decl.source? = some source) :
    draft.root.roleOf source.id = .other := by
  have accessor (part : Node) (listed : part ∈ decl.accessors) :
      part ∈ draft.root.descendants ∧ part.shape.family = .method := by
    have isPart : part ∈ node.children := by rwa [Node.children, shape]
    refine ⟨Node.mem_descendants_trans (Node.child_mem_descendants isPart) inside,
      (formed.regular node inside).parts (.method, part) ?_⟩
    rw [shape]
    exact List.mem_map.2 ⟨part, listed, rfl⟩
  unfold PropertyDecl.source? at isSource
  split at isSource
  · rename_i getter found
    obtain rfl := Option.some.inj isSource
    obtain ⟨lies, family⟩ := accessor getter (by simp [PropertyDecl.accessors, found])
    rw [Node.roleOf_of_mem formed.distinct lies, family]
    rfl
  · obtain ⟨method, isMethod, last⟩ := Option.bind_eq_some_iff.1 isSource
    obtain ⟨setter, found, decl?⟩ := Option.bind_eq_some_iff.1 isMethod
    obtain ⟨lies, family⟩ := accessor setter (by
      unfold PropertyDecl.accessors
      cases letter : decl.letter <;> simp_all)
    have isShape := Node.shape_of_methodDecl? decl?
    have among : source ∈ method.params := List.mem_of_getLast? last
    have isParam : source.shape.family = .param := by
      refine (formed.regular setter lies).parts (.param, source) ?_
      rw [isShape]
      exact List.mem_append_left _ (List.mem_map.2 ⟨source, among, rfl⟩)
    have isPart : source ∈ setter.children := by
      rw [Node.children, isShape]
      exact List.mem_append_left _ among
    have within := Node.mem_descendants_trans (Node.child_mem_descendants isPart) lies
    rw [Node.roleOf_of_mem formed.distinct within, isParam]
    rfl

theorem Draft.Formed.start_fits {symbols : SymbolTable} {options : MigrationOptions}
    {store : ScriptStore} {id : ScriptId} {script : Script} {draft : Draft} (formed : draft.Formed)
    (cache : MemberMemo) :
    ((Surroundings.forScript symbols options store id script draft).start draft cache).Fits
      (Surroundings.forScript symbols options store id script draft) draft.root.roleOf := by
  obtain ⟨described, unbound⟩ := Surroundings.start_notes
    (Surroundings.forScript symbols options store id script draft) cache formed.unknown
  have static : (Surroundings.forScript symbols options store id script draft).Fits _ _ :=
    formed.surroundings_fit
  constructor
  · refine ⟨formed.distinct, fun node inside => formed.role_of_mem inside, formed.small, ?_⟩
    intro node inside decl source shape isSource
    exact formed.role_of_source inside shape isSource
  · intro id large
    refine Node.roleOf_of_not_mem fun found => ?_
    obtain ⟨node, inside, rfl⟩ := List.mem_map.1 found
    exact absurd (formed.small node inside) (Nat.not_lt.2 large)
  · intro method id scope name listed found
    obtain ⟨node, inside, rfl, role⟩ := ScopeIndex.family_of_body listed found
    exact formed.plain_of_mem inside role
  · intro id decl binding noted
    rw [unbound] at noted
    exact nomatch noted
  · intro id descriptor noted _
    rw [described] at noted
    exact (static.declared noted).2
  · intro id type written
    rw [described, written]
  · intro entry listed
    exact nomatch listed
  · exact List.nodup_nil

end ScriptMigration
