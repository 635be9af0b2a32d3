import ScriptMigration.Proofs.Reshape.ReturnReferences
import ScriptMigration.Proofs.Resolution.Grounded

/-! What is noted of a procedure when values are given back by returning them. Every procedure changes
the notes of its own nodes and of those that are made for it, so what is noted of these is what the
plan of that one procedure notes. -/
namespace ScriptMigration

/-- The same is noted of an identity. -/
structure Notes.Agree (notes notes' : Notes) (id : NodeId) : Prop where
  binding : notes'.binding? id = notes.binding? id
  descriptor : notes'.descriptor? id = notes.descriptor? id
  mode : notes'.mode id = notes.mode id

namespace Notes.Agree

variable {first second third : Notes} {id : NodeId}

theorem refl (notes : Notes) (id : NodeId) : notes.Agree notes id := ⟨rfl, rfl, rfl⟩

theorem trans (left : first.Agree second id) (right : second.Agree third id) :
    first.Agree third id :=
  ⟨right.binding.trans left.binding, right.descriptor.trans left.descriptor,
    right.mode.trans left.mode⟩

end Notes.Agree

theorem Node.ownDescendants_of_typeless {node : Node}
    (typeless : ∀ below ∈ node.descendants, below.shape.family ≠ .type) :
    node.ownDescendants = node.descendants := by
  induction node using Node.induction with
  | step node ih =>
    rw [ownDescendants_eq, descendants_eq]
    refine congrArg _ (List.flatMap_congr fun part inside => ?_)
    have below (deeper : Node) (lies : deeper ∈ part.descendants) : deeper.shape.family ≠ .type :=
      typeless deeper (mem_descendants_of_child inside lies)
    have notType : part.shape.isType = false := by
      rw [Shape.isType_eq]
      simpa using below part part.mem_descendants_self
    rw [if_neg (by simp [notType]), ih part inside below]

theorem Node.ownDescendants_of_inner {node : Node} (layers : node.InLayers)
    (inner : node.shape.family.isInner) : node.ownDescendants = node.descendants := by
  refine ownDescendants_of_typeless fun below lies isType => ?_
  have isInner := layers.isInner_below inner below lies
  rw [isType] at isInner
  exact nomatch isInner

namespace ReturnValue

variable {notes : Notes} {carrier id : NodeId} {type : Descriptor}

theorem ite_mem_cons {α : Type} (first : NodeId) (rest : List NodeId) (new old : α) :
    (if id ∈ rest then new else if first = id then new else old) =
      if id ∈ first :: rest then new else old := by
  by_cases later : id ∈ rest
  · rw [if_pos later, if_pos (List.mem_cons_of_mem _ later)]
  · rw [if_neg later]
    refine if_congr ?_ rfl rfl
    rw [List.mem_cons, or_iff_left later, eq_comm]

theorem bindAll_eq (uses : List NodeId) :
    (uses.foldl (fun notes id => (notes.bind id (.localVar carrier)).describe id type)
        notes).binding? id =
      (if id ∈ uses then some (.localVar carrier) else notes.binding? id) ∧
    (uses.foldl (fun notes id => (notes.bind id (.localVar carrier)).describe id type)
        notes).descriptor? id = (if id ∈ uses then some type else notes.descriptor? id) ∧
    (uses.foldl (fun notes id => (notes.bind id (.localVar carrier)).describe id type)
        notes).mode id = notes.mode id := by
  induction uses generalizing notes with
  | nil => simp
  | cons first rest ih =>
    rw [List.foldl_cons]
    obtain ⟨binding, descriptor, mode⟩ := @ih ((notes.bind first (.localVar carrier)).describe first type)
    refine ⟨?_, ?_, mode⟩
    · rw [binding, Notes.binding?_describe, Notes.binding?_bind]
      exact ite_mem_cons ..
    · rw [descriptor, Notes.descriptor?_describe, Notes.descriptor?_bind]
      exact ite_mem_cons ..

theorem describeAll_eq (values : List NodeId) :
    (values.foldl (fun notes id => notes.describe id type) notes).descriptor? id =
      (if id ∈ values then some type else notes.descriptor? id) ∧
    (values.foldl (fun notes id => notes.describe id type) notes).mode id = notes.mode id := by
  induction values generalizing notes with
  | nil => simp
  | cons first rest ih =>
    rw [List.foldl_cons]
    obtain ⟨descriptor, mode⟩ := @ih (notes.describe first type)
    refine ⟨?_, mode⟩
    rw [descriptor, Notes.descriptor?_describe]
    exact ite_mem_cons ..

variable (notes) (ids : NewIds) (method : NodeId) (decl : MethodDecl Node)

def valuesOf (ids : NewIds) (body : Node) : List NodeId :=
  (body.ownDescendants.filter isExit).map (ids.atExit ·.id) ++ [ids.finalValue]

def boundBy (plan : ReturnPlan) : List NodeId :=
  match plan with
  | .result .. =>
    (decl.body.ownDescendants.filter (isOwnName notes method)).map Node.id ++ valuesOf ids decl.body
  | .default _ | .nothing none => []
  | .nothing (some _) => (decl.body.ownDescendants.filter isAssignedValue).map Node.id

def describedBy (plan : ReturnPlan) : List NodeId :=
  match plan with
  | .default _ => valuesOf ids decl.body
  | .nothing none => []
  | plan => ids.carrier :: ids.initial :: boundBy notes ids method decl plan

theorem note_eq (plan : ReturnPlan) (id : NodeId) :
    (note ids method decl notes plan).binding? id =
      (if id ∈ boundBy notes ids method decl plan then some (.localVar ids.carrier)
        else notes.binding? id) ∧
    (note ids method decl notes plan).descriptor? id =
      (if id ∈ describedBy notes ids method decl plan then planType? plan
        else notes.descriptor? id) ∧
    (note ids method decl notes plan).mode id = notes.mode id := by
  have around (uses : List NodeId) (type : Descriptor) :
      (uses.foldl (fun notes id => (notes.bind id (.localVar ids.carrier)).describe id type)
        ((notes.describe ids.carrier type).describe ids.initial type)).descriptor? id =
      if id ∈ ids.carrier :: ids.initial :: uses then some type else notes.descriptor? id := by
    rw [(bindAll_eq uses).2.1, Notes.descriptor?_describe, Notes.descriptor?_describe,
      ← ite_mem_cons, ← ite_mem_cons]
  cases plan with
  | result name type =>
    have whole : note ids method decl notes (.result name type) =
        (boundBy notes ids method decl (.result name type)).foldl
          (fun notes id => (notes.bind id (.localVar ids.carrier)).describe id type)
          ((notes.describe ids.carrier type).describe ids.initial type) := by
      rw [boundBy, valuesOf, ← List.append_assoc]
      rfl
    rw [whole]
    exact ⟨(bindAll_eq _).1, around _ type, (bindAll_eq _).2.2⟩
  | default type => exact ⟨binding?_describeAll _ id, describeAll_eq _⟩
  | nothing copied =>
    cases copied with
    | none => exact ⟨rfl, rfl, rfl⟩
    | some type => exact ⟨(bindAll_eq _).1, around _ type, (bindAll_eq _).2.2⟩

end ReturnValue

namespace Draft

open ReturnValue

variable {draft : Draft} {localName : String} {node : Node} {decl : MethodDecl Node} {id : NodeId}

/-- An identity in a procedure: of a node in its body, or of one that is made for it. -/
def Belongs (draft : Draft) (method : NodeId) (body : Node) (id : NodeId) : Prop :=
  (∃ below ∈ body.descendants, id = below.id ∨ id = draft.newId 3 below.id) ∨
    ∃ plane ∈ [1, 2, 4, 5], id = draft.newId plane method

theorem belongs_of_boundBy {notes : Notes} {plan : ReturnPlan}
    (listed : id ∈ boundBy notes (newIds draft node.id) node.id decl plan) :
    draft.Belongs node.id decl.body id := by
  have named {nodes : List Node} (sub : nodes ⊆ decl.body.ownDescendants)
      (listed : id ∈ nodes.map Node.id) : draft.Belongs node.id decl.body id := by
    obtain ⟨below, among, rfl⟩ := List.mem_map.1 listed
    exact .inl ⟨below, Node.mem_ownDescendants (sub among), .inl rfl⟩
  unfold boundBy at listed
  split at listed
  · rcases List.mem_append.1 listed with isName | isValue
    · exact named (List.filter_subset_self _) isName
    · rcases List.mem_append.1 isValue with atExit | final
      · obtain ⟨exit, among, rfl⟩ := List.mem_map.1 atExit
        exact .inl ⟨exit, Node.mem_ownDescendants (List.mem_of_mem_filter among), .inr rfl⟩
      · exact .inr ⟨5, by decide, List.mem_singleton.1 final⟩
  · exact nomatch listed
  · exact nomatch listed
  · exact named (List.filter_subset_self _) listed

theorem belongs_of_valuesOf (listed : id ∈ valuesOf (newIds draft node.id) decl.body) :
    draft.Belongs node.id decl.body id := by
  have bound : id ∈ boundBy {} (newIds draft node.id) node.id decl (.result "" .object) :=
    List.mem_append_right _ listed
  exact belongs_of_boundBy bound

theorem belongs_of_describedBy {notes : Notes} {plan : ReturnPlan}
    (listed : id ∈ describedBy notes (newIds draft node.id) node.id decl plan) :
    draft.Belongs node.id decl.body id := by
  unfold describedBy at listed
  split at listed
  · exact belongs_of_valuesOf listed
  · exact nomatch listed
  · rcases List.mem_cons.1 listed with isCarrier | listed
    · exact .inr ⟨1, by decide, isCarrier⟩
    · rcases List.mem_cons.1 listed with isInitial | listed
      · exact .inr ⟨2, by decide, isInitial⟩
      · exact belongs_of_boundBy listed

theorem agree_note (notes : Notes) (plan : ReturnPlan)
    (elsewhere : ¬ draft.Belongs node.id decl.body id) :
    notes.Agree (note (newIds draft node.id) node.id decl notes plan) id := by
  obtain ⟨binding, descriptor, mode⟩ := note_eq notes (newIds draft node.id) node.id decl plan id
  refine ⟨?_, ?_, mode⟩
  · rw [binding, if_neg fun listed => elsewhere (belongs_of_boundBy listed)]
  · rw [descriptor, if_neg fun listed => elsewhere (belongs_of_describedBy listed)]

theorem agree_note_congr {notes notes' : Notes} (plan : ReturnPlan)
    (agree : ∀ id, draft.Belongs node.id decl.body id → notes.Agree notes' id)
    (belongs : draft.Belongs node.id decl.body id) :
    (note (newIds draft node.id) node.id decl notes plan).Agree
      (note (newIds draft node.id) node.id decl notes' plan) id := by
  have own : decl.body.ownDescendants.filter (isOwnName notes' node.id) =
      decl.body.ownDescendants.filter (isOwnName notes node.id) := by
    refine List.filter_congr fun below inside => ?_
    rw [isOwnName, isOwnName,
      (agree below.id (.inl ⟨below, Node.mem_ownDescendants inside, .inl rfl⟩)).binding]
  have bound : boundBy notes' (newIds draft node.id) node.id decl plan =
      boundBy notes (newIds draft node.id) node.id decl plan := by
    unfold boundBy
    rw [own]
  have described : describedBy notes' (newIds draft node.id) node.id decl plan =
      describedBy notes (newIds draft node.id) node.id decl plan := by
    rcases plan with _ | _ | (_ | _) <;> simp only [describedBy, bound]
  obtain ⟨binding, descriptor, mode⟩ := note_eq notes (newIds draft node.id) node.id decl plan id
  obtain ⟨binding', descriptor', mode'⟩ :=
    note_eq notes' (newIds draft node.id) node.id decl plan id
  have same := agree id belongs
  constructor
  · rw [binding, binding', bound, same.binding]
  · rw [descriptor, descriptor', described, same.descriptor]
  · rw [mode, mode', same.mode]

theorem shape_of_planned {planned : PlannedMethod} (listed : planned ∈ draft.plannedMethods localName) :
    planned.node ∈ draft.root.descendants ∧ planned.node.shape = .method planned.decl := by
  obtain ⟨method, among, isPlanned⟩ := List.mem_filterMap.1 listed
  obtain ⟨decl, isDecl, rfl⟩ := Option.map_eq_some_iff.1 isPlanned
  exact ⟨among, Node.shape_of_methodDecl? isDecl⟩

theorem agree_foldl {methods : List PlannedMethod}
    (elsewhere : ∀ planned ∈ methods, ¬ draft.Belongs planned.node.id planned.decl.body id)
    (notes : Notes) : notes.Agree (methods.foldl draft.noteReturn notes) id := by
  induction methods generalizing notes with
  | nil => exact .refl notes id
  | cons first rest ih =>
    exact (agree_note notes first.plan (elsewhere first List.mem_cons_self)).trans
      (ih (fun planned later => elsewhere planned (List.mem_cons_of_mem _ later)) _)

theorem agree_elsewhere (localName : String)
    (elsewhere : ∀ node ∈ draft.root.descendants, ∀ decl, node.shape = .method decl →
      ¬ draft.Belongs node.id decl.body id) :
    draft.notes.Agree (draft.returnValues localName).1.notes id := by
  refine agree_foldl (fun planned listed => ?_) draft.notes
  obtain ⟨among, shape⟩ := shape_of_planned listed
  exact elsewhere planned.node among planned.decl shape

theorem planned_sublist (draft : Draft) (localName : String) :
    ((draft.plannedMethods localName).map (·.node.id)).Sublist
      (draft.root.descendants.map Node.id) := by
  unfold plannedMethods Module.nodes
  induction draft.root.descendants with
  | nil => exact List.nil_sublist _
  | cons first rest ih =>
    rw [List.filterMap_cons]
    cases first.methodDecl? with
    | none => exact ih.cons _
    | some decl => exact ih.cons_cons _

theorem ne_newId {plane : Nat} {source : NodeId} (isPlane : 1 ≤ plane) (small : source.index < draft.fresh)
    (known : id.index < draft.fresh) : id ≠ draft.newId plane source := by
  rintro rfl
  exact absurd known (Nat.not_lt_of_le (draft.newId_bounds isPlane (Nat.le_refl plane) small).1)

section Grounded

variable (grounded : draft.Grounded) (inside : node ∈ draft.root.descendants)
  (shape : node.shape = .method decl)

include grounded inside shape

theorem Grounded.lies_of_belongs (belongs : draft.Belongs node.id decl.body id)
    (known : id.index < draft.fresh) : ∃ below ∈ decl.body.descendants, id = below.id := by
  rcases belongs with ⟨below, lies, same | same⟩ | ⟨plane, among, same⟩
  · exact ⟨below, lies, same⟩
  · obtain ⟨_, stands, _⟩ := grounded.layers.stands_in_body inside shape lies
    exact absurd same (ne_newId (by decide) (grounded.small below stands.mem) known)
  · have isPlane : 1 ≤ plane := by
      simp at among
      omega
    exact absurd same (ne_newId isPlane (grounded.small node inside) known)

theorem Grounded.belongs_unique {node' : Node} {decl' : MethodDecl Node}
    (inside' : node' ∈ draft.root.descendants) (shape' : node'.shape = .method decl')
    (belongs : draft.Belongs node.id decl.body id)
    (belongs' : draft.Belongs node'.id decl'.body id) : node.id = node'.id := by
  have small := grounded.small node inside
  have small' := grounded.small node' inside'
  have inBody {below below' : Node} (lies : below ∈ decl.body.descendants)
      (lies' : below' ∈ decl'.body.descendants) (same : below.id = below'.id) :
      node.id = node'.id := by
    obtain ⟨setting, stands, inMethod⟩ := grounded.layers.stands_in_body inside shape lies
    obtain ⟨setting', stands', inMethod'⟩ := grounded.layers.stands_in_body inside' shape' lies'
    rw [stands.unique grounded.distinct stands' same, inMethod'] at inMethod
    exact (Option.some.inj inMethod).symm
  have old {decl : MethodDecl Node} {node below : Node} (inside : node ∈ draft.root.descendants)
      (shape : node.shape = .method decl) (lies : below ∈ decl.body.descendants) :
      below.id.index < draft.fresh := by
    obtain ⟨_, stands, _⟩ := grounded.layers.stands_in_body inside shape lies
    exact grounded.small below stands.mem
  have planes {plane : Nat} (among : plane ∈ [1, 2, 4, 5]) : 1 ≤ plane ∧ plane ≠ 3 := by
    simp at among
    omega
  rcases belongs with ⟨below, lies, rfl | rfl⟩ | ⟨plane, among, rfl⟩ <;>
    rcases belongs' with ⟨below', lies', same | same⟩ | ⟨plane', among', same⟩
  · exact inBody lies lies' same
  · exact absurd same (ne_newId (by decide) (old inside' shape' lies') (old inside shape lies))
  · exact absurd same (ne_newId (planes among').1 small' (old inside shape lies))
  · exact absurd same.symm (ne_newId (by decide) (old inside shape lies) (old inside' shape' lies'))
  · exact inBody lies lies'
      (draft.newId_inj (old inside shape lies) (old inside' shape' lies') same).2
  · exact absurd (draft.newId_inj (old inside shape lies) small' same).1.symm (planes among').2
  · exact absurd same.symm (ne_newId (planes among).1 small (old inside' shape' lies'))
  · exact absurd (draft.newId_inj small (old inside' shape' lies') same).1 (planes among).2
  · exact (draft.newId_inj small small' same).2

theorem Grounded.agree_returnValues (localName : String)
    (belongs : draft.Belongs node.id decl.body id) :
    (note (newIds draft node.id) node.id decl draft.notes
      (plan draft.notes localName node decl)).Agree (draft.returnValues localName).1.notes id := by
  let planned : PlannedMethod := ⟨node, decl, plan draft.notes localName node decl⟩
  have isMethod : node.methodDecl? = some decl := by rw [Node.methodDecl?, shape]
  have listed : planned ∈ draft.plannedMethods localName :=
    List.mem_filterMap.2 ⟨node, inside, by rw [isMethod]; rfl⟩
  have once := (planned_sublist draft localName).nodup grounded.distinct
  obtain ⟨early, late, split⟩ := List.append_of_mem listed
  -- the other procedures change nothing that is noted here
  have others {methods : List PlannedMethod} (sub : methods ⊆ draft.plannedMethods localName)
      (apart : ∀ other ∈ methods, other.node.id ≠ node.id) (notes : Notes) {id : NodeId}
      (belongs : draft.Belongs node.id decl.body id) :
      notes.Agree (methods.foldl draft.noteReturn notes) id := by
    refine agree_foldl (fun other among also => ?_) notes
    obtain ⟨inside', isShape⟩ := shape_of_planned (sub among)
    exact apart other among (grounded.belongs_unique inside' isShape inside shape also belongs)
  have sub (other : PlannedMethod) (among : other ∈ early ∨ other ∈ late) :
      other ∈ draft.plannedMethods localName := by
    rw [split, List.mem_append, List.mem_cons]
    exact among.imp_right .inr
  rw [split, List.map_append, List.map_cons, List.nodup_append'] at once
  obtain ⟨_, lateOnce, differ⟩ := once
  have before {id : NodeId} (belongs : draft.Belongs node.id decl.body id) :
      draft.notes.Agree (early.foldl draft.noteReturn draft.notes) id := by
    refine others (fun other among => sub other (.inl among)) (fun other among same => ?_) _ belongs
    exact differ (List.mem_map.2 ⟨other, among, same⟩) List.mem_cons_self
  have whole : (draft.returnValues localName).1.notes =
      late.foldl draft.noteReturn
        (draft.noteReturn (early.foldl draft.noteReturn draft.notes) planned) := by
    unfold returnValues
    dsimp only [withPlanes]
    rw [split, List.foldl_append, List.foldl_cons]
  rw [whole]
  refine (agree_note_congr _ (fun id belongs => before belongs) belongs).trans
    (others (fun other among => sub other (.inr among)) (fun other among same => ?_) _ belongs)
  exact (List.nodup_cons.1 lateOnce).1 (List.mem_map.2 ⟨other, among, same⟩)

end Grounded

end Draft

end ScriptMigration
