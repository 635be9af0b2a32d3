import ScriptMigration.Proofs.Draft.Formed
import ScriptMigration.Reshape.SetterValue

/-! Dropping the value parameters of setters keeps a draft well formed: the parameters are what the
tree loses, and nothing else moves. -/
namespace ScriptMigration

namespace SetterValue

open Node (Adds Regroups idsBelow)

theorem replace_adds (name : String) : Adds (replace name) fun _ => [] := by
  refine .ofMarks fun node => ?_
  unfold replace
  split
  · rename_i named
    rcases node with ⟨info, shape⟩
    cases shape with
    | name text => exact ⟨rfl, rfl, rfl⟩
    | _ => exact nomatch named
  · exact ⟨rfl, rfl, rfl⟩

theorem replace_regular (name : String) {node : Node} (regular : node.Regular) :
    (replace name node).Regular := by
  unfold replace
  split
  · exact .ofNone rfl rfl
  · exact regular

def lostParams (node : Node) : List Node :=
  (node.methodDecl?.bind valueParam?).toList.filter (·.declName?.isSome)

theorem valueParam?_eq_some {decl : MethodDecl Node} {param : Node}
    (found : valueParam? decl = some param) : decl.params = [param] ∧ decl.kind.isSetter := by
  unfold valueParam? at found
  split at found
  · rename_i only
    split at found
    · rename_i setter
      exact ⟨only.trans (congrArg (fun param => [param]) (Option.some.inj found)), setter⟩
    · exact nomatch found
  · exact nomatch found

theorem dropParam_cases (node : Node) : (dropParam node = node ∧ lostParams node = []) ∨
    ∃ decl param name, node.shape = .method decl ∧ decl.params = [param] ∧
      lostParams node = [param] ∧ dropParam node = node.withShape (.method { decl with
        params := [], body := decl.body.mapInType (replace name) }) := by
  rcases node with ⟨info, shape⟩
  cases shape with
  | method decl =>
    cases value : valueParam? decl with
    | none => exact .inl ⟨by simp [dropParam, Node.shape, value],
        by simp [lostParams, Node.methodDecl?, Node.shape, value]⟩
    | some param =>
      have lost : lostParams (.mk info (.method decl)) =
          [param].filter (·.declName?.isSome) := by
        simp [lostParams, Node.methodDecl?, Node.shape, value]
      rw [lost]
      cases name : param.declName? with
      | none => exact .inl ⟨by simp [dropParam, Node.shape, value, name], by simp [name]⟩
      | some text =>
        refine .inr ⟨decl, param, text, rfl, (valueParam?_eq_some value).1, by simp [name], ?_⟩
        simp [dropParam, Node.shape, value, name]
  | _ => exact .inl ⟨rfl, rfl⟩

theorem dropParam_family (node : Node) : (dropParam node).shape.family = node.shape.family := by
  rcases dropParam_cases node with ⟨same, _⟩ | ⟨decl, param, name, shape, _, _, same⟩
  · rw [same]
  · rw [same, shape]
    rfl

theorem dropParam_regroups :
    Regroups (fun _ => True) dropParam (idsBelow ∘ lostParams) fun _ => [] := by
  refine ⟨fun node => ?_, fun node _ => ?_⟩
  · rcases dropParam_cases node with ⟨same, _⟩ | ⟨decl, param, name, _, _, _, same⟩
    · rw [same]
    · rw [same]
      rfl
  · rcases dropParam_cases node with ⟨same, none⟩ | ⟨decl, param, name, shape, only, lost, same⟩
    · rw [same, Function.comp_apply, none]
      exact .refl _
    · have parts : node.children = [param] ++ [decl.body] := by
        rw [Node.children, shape, Shape.children, only]
      have body : idsBelow [decl.body.mapInType (replace name)] = idsBelow [decl.body] := by
        simpa [idsBelow] using Node.ids_mapInType (replace_adds name) decl.body
      rw [same, Function.comp_apply, lost, parts, Node.idsBelow_append, List.append_nil, ← body]
      exact List.perm_append_comm

theorem dropParam_regular (node : Node) (regular : ∀ below ∈ node.descendants, below.Regular) :
    ∀ below ∈ (dropParam node).descendants, below.Regular := by
  rcases dropParam_cases node with ⟨same, _⟩ | ⟨decl, param, name, shape, _, _, same⟩
  · rwa [same]
  · rw [same]
    have isPart := Node.body_mem_children shape
    have isBlock := (regular node node.mem_descendants_self).isBlock shape
    intro below inside
    rcases Node.mem_descendants_cases inside with rfl | ⟨part, among, deeper⟩
    · refine .ofMethod (fun _ absurd => by cases absurd) ?_
      rw [Node.mapInType_eq, (replace_adds name).family, Node.family_withParts, isBlock]
    · obtain rfl := List.mem_singleton.1 among
      refine Node.regular_mapInType (replace_adds name) (fun _ => replace_regular name) ?_ below
        deeper
      exact fun lower lies => regular lower (Node.mem_descendants_of_child isPart lies)

theorem dropped?_eq_some {place : Place} {entry : Retired} (found : dropped? place = some entry) :
    ∃ decl param owner, place.node.shape = .method decl ∧ valueParam? decl = some param ∧
      place.type? = some owner ∧ entry = { owner := owner.id, node := param } := by
  unfold dropped? at found
  obtain ⟨decl, isMethod, found⟩ := Option.bind_eq_some_iff.1 found
  obtain ⟨param, value, found⟩ := Option.bind_eq_some_iff.1 found
  obtain ⟨owner, isOwner, same⟩ := Option.bind_eq_some_iff.1 found
  exact ⟨decl, param, owner, Node.shape_of_methodDecl? isMethod, value, isOwner,
    (Option.some.inj same).symm⟩

theorem mem_lost {root : Node} (regular : ∀ node ∈ root.descendants, node.Regular) {place : Place}
    (lies : place.node ∈ root.descendants) {entry : Retired} (found : dropped? place = some entry)
    {node : Node} (inside : node ∈ entry.node.descendants) :
    node.id ∈ root.descendants.flatMap fun old =>
      (idsBelow ∘ lostParams) (old.rebuilt dropParam) := by
  obtain ⟨decl, param, owner, shape, value, -, rfl⟩ := dropped?_eq_some found
  obtain ⟨only, setter⟩ := valueParam?_eq_some value
  have isPart : param ∈ place.node.children := by
    rw [Node.children, shape, Shape.children, only]
    exact List.mem_cons_self
  have family : param.shape.family = .param := by
    refine (regular _ lies).parts (.param, param) ?_
    rw [shape, Shape.demands, only]
    exact List.mem_cons_self
  have lost : lostParams (place.node.rebuilt dropParam) = [param.mapUp dropParam] := by
    have named : (param.mapUp dropParam).declName?.isSome := by
      have mapped : (param.mapUp dropParam).shape.family = .param := by
        rw [Node.mapUp_eq, dropParam_family, Node.family_rebuilt, family]
      unfold Node.declName?
      generalize (param.mapUp dropParam).shape = shape at mapped
      cases shape <;> simp_all [Shape.family, Shape.declName?, Shape.isExpression]
    have rebuilt := Node.shape_rebuilt_of_method shape dropParam
    simp [lostParams, Node.methodDecl?, rebuilt, valueParam?, only, setter, named]
  have perm := dropParam_regroups.ids_mapUp fun old (_ : old ∈ param.descendants) => trivial
  have among : node.id ∈ _ := perm.symm.subset (List.mem_append_left _ (List.mem_map.2
    ⟨node, inside, rfl⟩))
  rcases List.mem_append.1 among with here | deeper
  · refine List.mem_flatMap.2 ⟨place.node, lies, ?_⟩
    rw [Function.comp_apply, lost]
    simpa [idsBelow] using here
  · obtain ⟨old, below, listed⟩ := List.mem_flatMap.1 deeper
    exact List.mem_flatMap.2 ⟨old, Node.mem_descendants_trans below
      (Node.mem_descendants_trans (Node.child_mem_descendants isPart) lies), listed⟩

end SetterValue

open SetterValue in
theorem Draft.Formed.dropValueParams {draft : Draft} (formed : draft.Formed) :
    draft.dropValueParams.1.Formed := by
  refine formed.regroupSame dropParam_regroups (fun _ _ => trivial)
    (Node.regular_mapUp dropParam_family (fun _ _ => dropParam_regular _) formed.regular) ?_
  intro entry listed node inside
  obtain ⟨place, found, isDropped⟩ := List.mem_filterMap.1 listed
  have lies := Node.node_mem_of_mem_placesUp (Node.mem_places_iff.1 found)
  exact mem_lost formed.regular lies isDropped inside

end ScriptMigration
