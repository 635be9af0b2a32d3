import ScriptMigration.Proofs.Draft.References
import ScriptMigration.Proofs.Resolution.Convergence
import ScriptMigration.Proofs.Resolution.Referring

/-! What can be seen while a script of a batch is resolved refers to what the batch declares, and so
does what is noted before the first sweep. -/
namespace ScriptMigration

namespace Surroundings

variable {around : Surroundings} {kinds : DeclKinds}

/-- A declared type is the type itself, or it is named. -/
theorem Knows.declaredType? (knows : around.Knows kinds) {context : List NodeId} {node : Node}
    {type : Descriptor} (found : around.declaredType? context node = some type)
    (declares : node.shape.isType → kinds.isType ⟨around.script, node.id⟩) :
    type.Names kinds.isType := by
  have annotated {typeName : Option String} {rank : Nat}
      (taken : around.annotated? context typeName rank = some type) : type.Names kinds.isType := by
    unfold annotated? at taken
    split at taken
    · obtain rfl := Option.some.inj taken
      exact (knows.typeNamed _ _).withRank _
    · split at taken
      · exact nomatch taken
      · obtain rfl := Option.some.inj taken
        exact Descriptor.names_object.withRank _
  unfold Surroundings.declaredType? at found
  split at found
  · rename_i shape
    obtain rfl := Option.some.inj found
    exact Descriptor.names_ofScript _ (declares (by rw [shape]; rfl))
  · exact annotated found
  · exact annotated found
  · exact annotated found
  · split at found
    · obtain ⟨name, _, rfl⟩ := Option.map_eq_some_iff.1 found
      exact knows.typeNamed _ _
    · obtain rfl := Option.some.inj found
      exact Descriptor.names_of_none rfl
  · exact nomatch found

theorem Knows.withDeclared (knows : around.Knows kinds) {draft : Draft} (layered : draft.Layered)
    (rooted : ∀ {node : Node}, node ∈ draft.root.descendants → node.shape.isType →
      kinds.isType ⟨around.script, node.id⟩) : (around.withDeclared draft).Knows kinds := by
  refine { knows with declared := ?_ }
  intro id type found
  obtain ⟨⟨node, context⟩, listed, rfl, taken⟩ := declared_cases found
  refine knows.declaredType? taken fun isType => ?_
  rcases List.mem_append.1 listed with inTree | retired
  · obtain ⟨place, placed, same⟩ := List.mem_map.1 inTree
    obtain ⟨rfl, _⟩ := Prod.mk.inj same
    exact rooted (Node.node_mem_of_mem_places placed) isType
  · obtain ⟨entry, among, same⟩ := List.mem_map.1 retired
    obtain ⟨rfl, _⟩ := Prod.mk.inj same
    rw [Shape.isType_eq] at isType
    exact absurd (eq_of_beq isType) (layered.retired entry among)

end Surroundings

namespace ScriptStore.Referring

variable {symbols : SymbolTable} {options : MigrationOptions} {store : ScriptStore}
  {id : ScriptId} {script : Script} {draft : Draft}

theorem isType_of_nodesById (referring : store.Referring) (found : store.draft? id = some draft)
    {decl : NodeId} {node : Node} (listed : draft.nodesById[decl]? = some node)
    (isType : node.shape.isType) : node.id = decl ∧ node ∈ draft.root.descendants := by
  obtain ⟨rfl, inside | ⟨entry, among, rfl⟩⟩ := Draft.nodesById_cases listed
  · exact ⟨rfl, inside⟩
  · rw [Shape.isType_eq] at isType
    exact absurd (eq_of_beq isType) ((referring.layered found).retired entry among)

theorem node?_ofScript (found : store.draft? id = some draft) {decl : DeclRef} {node : Node}
    (listed : (Surroundings.ofScript symbols options store id script draft).node? decl = some node) :
    ∃ other, store.draft? decl.script = some other ∧ other.nodesById[decl.node]? = some node := by
  unfold Surroundings.node? at listed
  split at listed
  · rename_i own
    rw [eq_of_beq own]
    exact ⟨draft, found, listed⟩
  · obtain ⟨view, seen, taken⟩ := Option.bind_eq_some_iff.1 listed
    have seen : (Surroundings.forScript symbols options store id script draft).others[decl.script]? =
      some view := seen
    obtain ⟨_, other, isOther, rfl⟩ := Surroundings.others_cases seen
    exact ⟨other, isOther, taken⟩

variable (referring : store.Referring) (found : store.draft? id = some draft)

include referring found

theorem knows_ofScript (table : symbols.Foreign)
    (ownForm : ∀ form, script.form = some form → form.Foreign) :
    (Surroundings.ofScript symbols options store id script draft).Knows store.kinds where
  symbols := table
  form := ownForm
  others {other view node type} seen noted := by
    have seen : (Surroundings.forScript symbols options store id script draft).others[other]? =
      some view := seen
    obtain ⟨_, other, isOther, rfl⟩ := Surroundings.others_cases seen
    exact referring.names isOther noted
  node {decl node} listed isType := by
    obtain ⟨other, isOther, taken⟩ := node?_ofScript found listed
    obtain ⟨same, inside⟩ := referring.isType_of_nodesById isOther taken isType
    exact ⟨other, isOther, same ▸ Node.hasType_of_isType inside isType⟩
  part {decl node member name} listed named := by
    obtain ⟨other, isOther, taken⟩ := node?_ofScript found listed
    obtain ⟨type, isDecl, among⟩ := Option.bind_eq_some_iff.1 named
    have shape := Node.shape_of_typeDecl? isDecl
    obtain ⟨_, inside⟩ := referring.isType_of_nodesById isOther taken (by rw [shape]; rfl)
    exact ⟨other, isOther, Node.hasMember_of_type inside shape (List.mem_of_find?_eq_some among)⟩
  scope {type scope} listed := by
    obtain ⟨node, inside, decl, _, rfl, shape, _⟩ :=
      (ScopeIndex.ofTree_held draft.root).types type scope listed
    exact ⟨draft, found, Node.hasType_of_isType inside (by rw [shape]; rfl)⟩
  member {type name member} taken := by
    obtain ⟨scope, listed, named⟩ := Option.bind_eq_some_iff.1 taken
    obtain ⟨node, inside, decl, _, _, shape, rfl, _⟩ :=
      (ScopeIndex.ofTree_held draft.root).types type scope listed
    exact ⟨draft, found,
      Node.hasMember_of_type inside shape (MemberScope.mem_of_find?_ofDecl named).1⟩
  dependency {name decl} included := by
    obtain ⟨⟨other, root⟩, listed, same, type, shape, names⟩ :=
      IncludedNames.declared_of_find? included
    obtain ⟨dependency, _, taken⟩ := List.mem_filterMap.1 listed
    split at taken
    · exact nomatch taken
    · rename_i differs
      obtain ⟨draft', isOther, entry⟩ := Option.map_eq_some_iff.1 taken
      obtain ⟨rfl, rfl⟩ := Prod.mk.inj entry
      dsimp only at same shape names
      subst same
      have apart : decl.script ≠ id := by simpa using differs
      refine ⟨apart, ?_⟩
      rcases names with isRoot | ⟨member, inside, isMember⟩
      · exact .inl ⟨draft', isOther, isRoot ▸ Node.hasType_of_isType
          draft'.root.mem_descendants_self (by rw [shape]; rfl)⟩
      · exact .inr ⟨draft', isOther, isMember ▸ Node.hasMember_of_type
          draft'.root.mem_descendants_self shape inside⟩
  declared listed := by simp [Surroundings.ofScript] at listed

theorem knows_forScript (table : symbols.Foreign)
    (ownForm : ∀ form, script.form = some form → form.Foreign) :
    (Surroundings.forScript symbols options store id script draft).Knows store.kinds :=
  (referring.knows_ofScript found table ownForm).withDeclared (referring.layered found)
    fun inside isType => ⟨draft, found, Node.hasType_of_isType inside isType⟩

end ScriptStore.Referring

namespace ScopeIndex

variable {root : Node} {method id : NodeId} {scope : LocalScope} {name : String}

theorem declares_local (layers : root.InLayers) (listed : (ofTree root).bodies[method]? = some scope)
    (taken : scope.local? name = some id) : root.Declares .localVar id method := by
  obtain ⟨node, inside, decl, rfl, shape, rfl⟩ := (ofTree_held root).bodies method scope listed
  obtain ⟨local', lies, same, family⟩ := (LocalScope.ofDecl_held decl).locals taken
  obtain ⟨setting, stands, inMethod⟩ := layers.stands_in_body inside shape lies
  exact ⟨setting, local', stands, same, family, inMethod⟩

theorem declares_param (listed : (ofTree root).bodies[method]? = some scope)
    (taken : scope.param? name = some id) : root.Declares .param id method := by
  obtain ⟨node, inside, decl, rfl, shape, rfl⟩ := (ofTree_held root).bodies method scope listed
  obtain ⟨param, among, same, isParam⟩ := (LocalScope.ofDecl_held decl).params taken
  obtain ⟨setting, stands, owner⟩ :=
    Node.stands_in_method inside shape (List.mem_append_left _ among)
  refine ⟨setting, param, stands, same, ?_, owner⟩
  unfold Node.paramDecl? at isParam
  split at isParam
  · rename_i shape
    rw [shape]
    rfl
  · exact nomatch isParam

end ScopeIndex

namespace ScriptStore.Referring

variable {symbols : SymbolTable} {options : MigrationOptions} {store : ScriptStore}
  {id : ScriptId} {script : Script} {draft : Draft} {cache : MemberMemo}

theorem start_referring (referring : store.Referring) (found : store.draft? id = some draft)
    (formed : draft.Formed) (table : symbols.Foreign)
    (ownForm : ∀ form, script.form = some form → form.Foreign) (faithful : cache.Faithful symbols) :
    ((Surroundings.forScript symbols options store id script draft).start draft cache).Referring
      (Surroundings.forScript symbols options store id script draft) store.kinds
        draft.root.roleOf := by
  have knows : (Surroundings.forScript symbols options store id script draft).Knows store.kinds :=
    referring.knows_forScript found table ownForm
  have layers := (referring.layered found).layers
  obtain ⟨described, unbound⟩ := Surroundings.start_notes
    (Surroundings.forScript symbols options store id script draft) cache formed.unknown
  refine ⟨layers, rooted_kinds found, ?_, fun listed taken => .inl ?_, fun listed taken => .inl ?_,
    ?_, ?_, faithful⟩
  · intro node type noted
    rw [described] at noted
    exact knows.declared noted
  · exact ScopeIndex.declares_local layers listed taken
  · exact ScopeIndex.declares_param listed taken
  · intro setting node binding _ noted
    rw [unbound] at noted
    exact nomatch noted
  · intro node binding noted
    rw [unbound] at noted
    exact nomatch noted

end ScriptStore.Referring

end ScriptMigration
