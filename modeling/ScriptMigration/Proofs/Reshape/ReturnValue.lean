import ScriptMigration.Proofs.Draft.Formed
import ScriptMigration.Proofs.Syntax.Tally
import ScriptMigration.Reshape.ReturnValue

/-! Giving back values by returning them keeps every identity to one node. A procedure gets a few new
nodes of its own, and one for each place where it is left; a place where an inner procedure is left is
not one of the procedure around it any more. -/
namespace ScriptMigration

namespace ReturnValue

variable {ids : NewIds} {replace : Node → Node} (id : NodeId)

def anyNode : Node → Bool := fun _ => true

def Replaces (ids : NewIds) (replace : Node → Node) : Prop :=
  ∀ node, (replace node = node ∧ isExit node = false) ∨
    ∃ shape, replace node = node.withShape shape ∧ isExit (node.withShape shape) = false ∧
      (shape.children = [] ∨ ∃ value, shape.children = [value] ∧ value.children = [] ∧
        isExit value = false ∧ value.id = ids.atExit node.id ∧ isExit node)

def valueAt (ids : NewIds) (id : NodeId) (node : Node) : Nat :=
  if isExit node && ids.atExit node.id == id then 1 else 0

def exits (body : Node) : List NodeId := (body.ownDescendants.filter isExit).map Node.id

theorem isExit_withParts (g : Node → Node) (node : Node) :
    isExit (node.withParts g) = isExit node := by
  rcases node with ⟨info, shape⟩
  cases shape with
  | loop test body => cases test <;> rfl
  | _ => rfl

theorem isExit_of_type {node : Node} (isType : node.shape.isType) : isExit node = false := by
  unfold isExit
  split
  · rename_i target shape
    rw [shape] at isType
    exact nomatch isType
  · rfl

namespace Replaces

theorem tally_le (replaces : Replaces ids replace) (node : Node) :
    (replace node).tally anyNode id + 0 ≤ node.tally anyNode id + valueAt ids id node := by
  have own := node.counts_le_tally anyNode id
  rcases replaces node with ⟨same, -⟩ | ⟨shape, same, -, none | ⟨value, only, bare, -, named, exit⟩⟩
  · rw [same]
    omega
  · rw [same, Node.tally_eq, show (node.withShape shape).children = [] from none]
    exact Nat.le_add_right_of_le own
  · have leaf : value.tally anyNode id = if ids.atExit node.id == id then 1 else 0 := by
      rw [Node.tally_eq, bare, ← named]
      rfl
    rw [same, Node.tally_eq, show (node.withShape shape).children = [value] from only]
    simp only [List.map_cons, List.map_nil, List.sum_cons, List.sum_nil, leaf, valueAt, exit,
      Bool.true_and]
    exact Nat.add_le_add_right own _

theorem tally_exit_le (replaces : Replaces ids replace) (node : Node) :
    (replace node).tally isExit id + node.counts isExit id ≤ node.tally isExit id + 0 := by
  have own := node.counts_le_tally isExit id
  have none {other : Node} (inner : isExit other = false) : other.counts isExit id = 0 := by
    simp [Node.counts, inner]
  rcases replaces node with
    ⟨same, inner⟩ | ⟨shape, same, inner, bare | ⟨value, only, bare, plain, -⟩⟩
  · rw [same, none inner]
  · rw [same, Node.tally_eq, none inner, show (node.withShape shape).children = [] from bare]
    simpa using own
  · rw [same, Node.tally_eq, none inner, show (node.withShape shape).children = [value] from only]
    simp only [List.map_cons, List.map_nil, List.sum_cons, List.sum_nil]
    rw [Node.tally_eq, none plain, bare]
    simpa using own

theorem tally_mapInType_le (replaces : Replaces ids replace) (body : Node) :
    (body.mapInType replace).tally anyNode id ≤
      body.tally anyNode id + (exits body).countP (ids.atExit · == id) := by
  have step := Node.tally_mapInType replace (fun _ => 0) (valueAt ids id) (fun _ _ => rfl)
    (fun _ _ => rfl) (fun g old => by rw [valueAt, isExit_withParts]; rfl) (fun _ _ => rfl)
    (replaces.tally_le id) body
  have values : (body.ownDescendants.map (valueAt ids id)).sum =
      (exits body).countP (ids.atExit · == id) := by
    rw [exits, List.countP_map, List.countP_filter, ← sum_ite_eq_countP]
    refine congrArg List.sum (List.map_congr_left fun node _ => ?_)
    simp only [valueAt, Function.comp_apply, Bool.and_comm]
  rw [← values]
  exact Nat.le_of_add_right_le step

theorem tally_exit_mapInType_le (replaces : Replaces ids replace) (body : Node) :
    (body.mapInType replace).tally isExit id + (exits body).count id ≤ body.tally isExit id := by
  have step := Node.tally_mapInType replace (Node.counts isExit id) (fun _ => 0)
    (fun g old => by rw [Node.counts, isExit_withParts]; rfl)
    (fun g old => by rw [Node.counts, isExit_withParts]; rfl) (fun _ _ => rfl)
    (fun node isType => by rw [Node.counts, isExit_of_type isType]; rfl)
    (replaces.tally_exit_le id) body
  have used : (body.ownDescendants.map (Node.counts isExit id)).sum = (exits body).count id := by
    rw [exits, List.count, List.countP_map, List.countP_filter, ← sum_ite_eq_countP]
    refine congrArg List.sum (List.map_congr_left fun node _ => ?_)
    simp only [Node.counts, Function.comp_apply, Bool.and_comm]
  rw [← used]
  simpa using step

end Replaces

theorem descendants_made {made : NodeId} {line : Nat} {shape : Shape Node} :
    (Node.made made line shape).descendants =
      .made made line shape :: shape.children.flatMap Node.descendants := Node.descendants_eq _

/-- Nodes that a plan puts before or after the statements of a body. -/
structure Frames (ids : NewIds) (nodes : List Node) : Prop where
  ids : ((nodes.flatMap Node.descendants).map Node.id).Sublist
    [ids.carrier, ids.initial, ids.final, ids.finalValue]
  plain : ∀ node ∈ nodes.flatMap Node.descendants, isExit node = false

theorem Frames.empty : Frames ids [] := ⟨List.nil_sublist _, fun _ absurd => nomatch absurd⟩

inductive Reworked (ids : NewIds) (body : Node) : Node → Prop where
  | framed {replace : Node → Node} {first : List Node} {last : List Node → List Node}
      (replaces : Replaces ids replace) (frames : ∀ stmts, Frames ids (first ++ last stmts)) :
      Reworked ids body (rebuilt body replace first last)

section Made

variable (name : String) (origin : Origin) (line : Nat) {initial value : Node}

theorem descendants_variableNode (bare : initial.children = []) :
    (variableNode ids name origin line initial).descendants =
      [variableNode ids name origin line initial, initial] := by
  rw [variableNode, descendants_made]
  simp [Shape.children, Shape.varParts, Node.descendants_eq, bare]

theorem descendants_return (bare : value.children = []) :
    (Node.made ids.final line (.returnStmt (some value))).descendants =
      [.made ids.final line (.returnStmt (some value)), value] := by
  rw [descendants_made]
  simp [Shape.children, Node.descendants_eq, bare]

theorem Frames.variable (bare : initial.children = []) (named : initial.id = ids.initial)
    (plain : isExit initial = false) : Frames ids [variableNode ids name origin line initial] := by
  constructor
  · rw [List.flatMap_singleton, descendants_variableNode name origin line bare]
    simp only [List.map_cons, List.map_nil, named]
    exact .cons_cons _ (.cons_cons _ (List.nil_sublist _))
  · rw [List.flatMap_singleton, descendants_variableNode name origin line bare]
    simp only [List.mem_cons, List.not_mem_nil, or_false, forall_eq_or_imp, forall_eq]
    exact ⟨rfl, plain⟩

theorem Frames.return (bare : value.children = []) (named : value.id = ids.finalValue)
    (plain : isExit value = false) :
    Frames ids [.made ids.final line (.returnStmt (some value))] := by
  constructor
  · rw [List.flatMap_singleton, descendants_return line bare]
    simp only [List.map_cons, List.map_nil, named]
    exact .cons _ (.cons _ (List.Sublist.refl _))
  · rw [List.flatMap_singleton, descendants_return line bare]
    simp only [List.mem_cons, List.not_mem_nil, or_false, forall_eq_or_imp, forall_eq]
    exact ⟨rfl, plain⟩

theorem Frames.both {other : Nat} (bare : initial.children = []) (named : initial.id = ids.initial)
    (plain : isExit initial = false) (alsoBare : value.children = [])
    (alsoNamed : value.id = ids.finalValue) (alsoPlain : isExit value = false) :
    Frames ids [variableNode ids name origin line initial,
      .made ids.final other (.returnStmt (some value))] := by
  constructor
  · rw [List.flatMap_cons, List.flatMap_singleton, descendants_return other alsoBare,
      descendants_variableNode name origin line bare]
    simp only [List.cons_append, List.nil_append, List.map_cons, List.map_nil, named, alsoNamed]
    exact List.Sublist.refl _
  · rw [List.flatMap_cons, List.flatMap_singleton, descendants_return other alsoBare,
      descendants_variableNode name origin line bare]
    simp only [List.cons_append, List.nil_append, List.mem_cons, List.not_mem_nil, or_false,
      forall_eq_or_imp, forall_eq]
    exact ⟨rfl, plain, rfl, alsoPlain⟩

end Made

theorem body_reworked (notes : Notes) (ids : NewIds) (method : Node) (decl : MethodDecl Node)
    (plan : ReturnPlan) : Reworked ids decl.body (body notes ids method decl plan) := by
  cases plan with
  | result name type =>
    unfold body
    refine .framed (fun node => ?_) fun stmts => ?_
    · split
      · exact .inr ⟨_, rfl, rfl, .inl rfl⟩
      · split
        · rename_i exit
          exact .inr ⟨_, rfl, rfl, .inr ⟨_, rfl, rfl, rfl, rfl, exit⟩⟩
        · rename_i plain
          exact .inl ⟨rfl, by simpa using plain⟩
    · split
      · exact .variable _ _ _ rfl rfl rfl
      · exact .both _ _ _ rfl rfl rfl rfl rfl rfl
  | default type =>
    unfold body
    refine .framed (fun node => ?_) fun stmts => .return _ rfl rfl rfl
    split
    · rename_i exit
      exact .inr ⟨_, rfl, rfl, .inr ⟨_, rfl, rfl, rfl, rfl, exit⟩⟩
    · rename_i plain
      exact .inl ⟨rfl, by simpa using plain⟩
  | nothing copied =>
    unfold body
    refine .framed (fun node => ?_) fun stmts => ?_
    · split
      · exact .inr ⟨_, rfl, rfl, .inl rfl⟩
      · rename_i plain
        split
        · exact .inr ⟨_, rfl, rfl, .inl rfl⟩
        · exact .inl ⟨rfl, by simpa using plain⟩
    · split
      · exact .variable _ _ _ rfl rfl rfl
      · exact .empty

section Reworked

variable {body new : Node}

theorem stmts_le (p : Node → Bool) (node : Node) :
    (node.stmts.map (Node.tally p id)).sum ≤ (node.children.map (Node.tally p id)).sum := by
  rcases node with ⟨info, shape⟩
  cases shape <;> simp [Node.stmts, Node.shape, Node.children, Shape.children]

theorem Frames.tally_le {nodes : List Node} (frames : Frames ids nodes) :
    (nodes.map (Node.tally anyNode id)).sum ≤
      [ids.carrier, ids.initial, ids.final, ids.finalValue].count id := by
  have counted : (nodes.map (Node.tally anyNode id)).sum =
      ((nodes.flatMap Node.descendants).map Node.id).count id := by
    rw [Node.sum_tally, List.count, List.countP_map]
    rfl
  rw [counted]
  exact frames.ids.count_le id

theorem Frames.tally_exit {nodes : List Node} (frames : Frames ids nodes) :
    (nodes.map (Node.tally isExit id)).sum = 0 := by
  rw [Node.sum_tally, List.countP_eq_zero]
  intro node inside
  simp [frames.plain node inside]

theorem tally_rebuilt (body : Node) (p : Node → Bool) (replace : Node → Node) (first : List Node)
    (last : List Node → List Node) : (rebuilt body replace first last).tally p id ≤
      (rebuilt body replace first last).counts p id +
        (((first ++ last (body.mapInType replace).stmts).map (Node.tally p id)).sum +
          ((body.mapInType replace).children.map (Node.tally p id)).sum) := by
  have inner := stmts_le id p (body.mapInType replace)
  have parts : (rebuilt body replace first last).children =
      first ++ (body.mapInType replace).stmts ++ last (body.mapInType replace).stmts := rfl
  rw [Node.tally_eq, parts]
  simp only [List.map_append, List.sum_append]
  omega

theorem Reworked.tally_le (reworked : Reworked ids body new) :
    new.tally anyNode id ≤ body.tally anyNode id +
      ([ids.carrier, ids.initial, ids.final, ids.finalValue].count id +
      (exits body).countP (ids.atExit · == id)) := by
  cases reworked with
  | @framed replace first last replaces frames =>
    have whole := tally_rebuilt id body anyNode replace first last
    have around := (frames (body.mapInType replace).stmts).tally_le id
    have inside := replaces.tally_mapInType_le id body
    have split := Node.tally_eq anyNode id (body.mapInType replace)
    have own : (rebuilt body replace first last).counts anyNode id =
        (body.mapInType replace).counts anyNode id := rfl
    omega

theorem Reworked.tally_exit_le (reworked : Reworked ids body new) :
    new.tally isExit id + (exits body).count id ≤ body.tally isExit id := by
  cases reworked with
  | @framed replace first last replaces frames =>
    have whole := tally_rebuilt id body isExit replace first last
    have around := (frames (body.mapInType replace).stmts).tally_exit id
    have inside := replaces.tally_exit_mapInType_le id body
    have split := Node.tally_eq isExit id (body.mapInType replace)
    have own : (rebuilt body replace first last).counts isExit id = 0 := rfl
    omega

end Reworked

end ReturnValue

namespace Draft

open ReturnValue

variable (draft : Draft) (localName : String) (id : NodeId)

def framePlanes (node : Node) : List Nat := if node.shape.isMethod then [1, 2, 4, 5] else []

def framesOf (node : Node) : List NodeId := (framePlanes node).map (draft.newId · node.id)

def exitsAt (node : Node) : List NodeId :=
  (node.methodDecl?.map fun decl => exits decl.body).getD []

theorem returnNode_cases (node : Node) :
    (draft.returnNode localName node = node ∧ node.methodDecl? = none) ∨
      ∃ decl new, node.shape = .method decl ∧ Reworked (newIds draft node.id) decl.body new ∧
        draft.returnNode localName node = node.withShape (.method { decl with body := new }) := by
  rcases node with ⟨info, shape⟩
  cases shape with
  | method decl => exact .inr ⟨decl, _, rfl, body_reworked .., rfl⟩
  | _ => exact .inl ⟨rfl, rfl⟩

theorem tally_withMethod (p : Node → Bool) (node : Node) (decl : MethodDecl Node) :
    (node.withShape (.method decl)).tally p id = (node.withShape (.method decl)).counts p id +
      ((decl.params.map (Node.tally p id)).sum + decl.body.tally p id) := by
  rw [Node.tally_eq]
  simp [Node.children, Node.withShape, Node.shape, Shape.children]

theorem tally_method (p : Node → Bool) {node : Node} {decl : MethodDecl Node}
    (shape : node.shape = .method decl) : node.tally p id = node.counts p id +
      ((decl.params.map (Node.tally p id)).sum + decl.body.tally p id) := by
  rcases node with ⟨info, _⟩
  obtain rfl := shape
  exact tally_withMethod id p (.mk info (.method decl)) decl

theorem tally_returnNode_le (node : Node) : (draft.returnNode localName node).tally anyNode id + 0 ≤
    node.tally anyNode id +
      ((draft.framesOf node).count id + (exitsAt node).countP (draft.newId 3 · == id)) := by
  rcases draft.returnNode_cases localName node with ⟨same, -⟩ | ⟨decl, new, shape, reworked, same⟩
  · rw [same]
    omega
  · have body := reworked.tally_le id
    have before := tally_method id anyNode shape
    have after : (node.withShape (.method { decl with body := new })).tally anyNode id =
        (node.withShape (.method { decl with body := new })).counts anyNode id +
          ((decl.params.map (Node.tally anyNode id)).sum + new.tally anyNode id) :=
      tally_withMethod id anyNode node _
    have own : (node.withShape (.method { decl with body := new })).counts anyNode id =
      node.counts anyNode id := rfl
    have frames : draft.framesOf node = [(newIds draft node.id).carrier,
        (newIds draft node.id).initial, (newIds draft node.id).final,
        (newIds draft node.id).finalValue] := by
      rw [framesOf, framePlanes, shape]
      rfl
    have used : exitsAt node = exits decl.body := by simp [exitsAt, Node.methodDecl?, shape]
    have atExit : (newIds draft node.id).atExit = draft.newId 3 := rfl
    rw [same, frames, used]
    rw [atExit] at body
    omega

theorem tally_exit_returnNode_le (node : Node) :
    (draft.returnNode localName node).tally isExit id + (exitsAt node).count id ≤
      node.tally isExit id + 0 := by
  rcases draft.returnNode_cases localName node with ⟨same, none⟩ | ⟨decl, new, shape, reworked, same⟩
  · rw [same, exitsAt, none]
    exact Nat.le_refl _
  · have body := reworked.tally_exit_le id
    have before := tally_method id isExit shape
    have after : (node.withShape (.method { decl with body := new })).tally isExit id =
        (node.withShape (.method { decl with body := new })).counts isExit id +
          ((decl.params.map (Node.tally isExit id)).sum + new.tally isExit id) :=
      tally_withMethod id isExit node _
    have own : (node.withShape (.method { decl with body := new })).counts isExit id = 0 := rfl
    have used : exitsAt node = exits decl.body := by simp [exitsAt, Node.methodDecl?, shape]
    rw [same, used]
    omega

theorem tally_returnValues_le (root : Node) : (root.mapUp (draft.returnNode localName)).tally anyNode id ≤
    root.tally anyNode id + ((root.descendants.flatMap draft.framesOf).count id +
      (root.descendants.flatMap fun old =>
        exitsAt (old.rebuilt (draft.returnNode localName))).countP (draft.newId 3 · == id)) := by
  have whole := Node.tally_mapUp (draft.returnNode localName) (fun _ => 0)
    (fun node => (draft.framesOf node).count id + (exitsAt node).countP (draft.newId 3 · == id))
    (fun _ => rfl) fun old (_ : old ∈ root.descendants) =>
      draft.tally_returnNode_le localName id (old.rebuilt _)
  have frames (old : Node) :
      draft.framesOf (old.rebuilt (draft.returnNode localName)) = draft.framesOf old := by
    rw [framesOf, framesOf, framePlanes, framePlanes, Shape.isMethod_eq, Shape.isMethod_eq,
      Node.family_rebuilt, Node.id_rebuilt]
  simp only [frames, List.sum_map_add] at whole
  rw [List.count_flatMap, List.countP_flatMap]
  exact Nat.le_of_add_right_le whole

theorem exitsAt_count_le (root : Node) : (root.descendants.flatMap fun old =>
    exitsAt (old.rebuilt (draft.returnNode localName))).count id ≤ root.tally isExit id := by
  have whole := Node.tally_mapUp (draft.returnNode localName) (fun node => (exitsAt node).count id)
    (fun _ => 0) (fun old => by rw [Node.counts, Node.rebuilt, isExit_withParts]; rfl)
    fun old (_ : old ∈ root.descendants) =>
      draft.tally_exit_returnNode_le localName id (old.rebuilt _)
  rw [List.count_flatMap]
  simp only [List.map_const', List.sum_replicate_nat, Nat.mul_zero, Nat.add_zero] at whole
  exact Nat.le_of_add_left_le whole

theorem framePlanes_cases {node : Node} {plane : Nat} (listed : plane ∈ framePlanes node) :
    1 ≤ plane ∧ plane ≤ 5 ∧ plane ≠ 3 := by
  unfold framePlanes at listed
  split at listed
  · simp only [List.mem_cons, List.not_mem_nil, or_false] at listed
    omega
  · exact nomatch listed

theorem framePlanes_nodup (node : Node) : (framePlanes node).Nodup := by
  unfold framePlanes
  split
  · decide
  · exact List.nodup_nil

namespace Tidy

variable {draft : Draft}

theorem returnValues (tidy : draft.Tidy) (localName : String) :
    (draft.returnValues localName).1.Tidy := by
  let used := draft.root.descendants.flatMap fun old =>
    exitsAt (old.rebuilt (draft.returnNode localName))
  have usedOnce (id : NodeId) : used.count id ≤ 1 :=
    Nat.le_trans (draft.exitsAt_count_le localName id draft.root)
      (Nat.le_trans (Node.tally_le_count _ id _) (List.nodup_iff_count_le_one.1 tidy.distinct id))
  have usedSmall : ∀ id ∈ used, id.index < draft.fresh := by
    intro id listed
    have found := Nat.le_trans (draft.exitsAt_count_le localName id draft.root)
      (Node.tally_le_count _ id _)
    exact tidy.small_ids id (List.count_pos_iff.1
      (Nat.lt_of_lt_of_le (List.count_pos_iff.2 listed) found))
  have values : (used.map (draft.newId 3)).Nodup :=
    List.Nodup.map_on (fun left first right second same =>
      (draft.newId_inj (usedSmall left first) (usedSmall right second) same).2)
      (List.nodup_iff_count_le_one.2 usedOnce)
  have all : (draft.root.descendants.flatMap draft.framesOf ++ used.map (draft.newId 3)).Nodup := by
    refine List.nodup_append'.2 ⟨tidy.newIds_nodup fun node _ => framePlanes_nodup node, values,
      fun id frame value => ?_⟩
    obtain ⟨node, inside, listed⟩ := List.mem_flatMap.1 frame
    obtain ⟨plane, among, rfl⟩ := List.mem_map.1 listed
    obtain ⟨source, isUsed, same⟩ := List.mem_map.1 value
    obtain ⟨third, -⟩ := draft.newId_inj (usedSmall source isUsed) (tidy.small node inside) same
    exact (framePlanes_cases among).2.2 third.symm
  have bounded (id : NodeId) :
      ((draft.root.mapUp (draft.returnNode localName)).descendants.map Node.id).count id ≤
        (draft.root.descendants.map Node.id).count id +
          (draft.root.descendants.flatMap draft.framesOf ++ used.map (draft.newId 3)).count id := by
    rw [← Node.tally_eq_count, ← Node.tally_eq_count, List.count_append,
      List.count_eq_countP (l := used.map _), List.countP_map]
    exact draft.tally_returnValues_le localName id draft.root
  refine tidy.ofCount (Nat.le_mul_of_pos_left _ (by decide)) bounded all fun id added => ?_
  rcases List.mem_append.1 added with frame | value
  · exact tidy.newIds_bounds (fun node plane among =>
      ⟨(framePlanes_cases among).1, (framePlanes_cases among).2.1⟩) id frame
  · obtain ⟨source, isUsed, rfl⟩ := List.mem_map.1 value
    exact draft.newId_bounds (by decide) (by decide) (usedSmall source isUsed)

end Tidy

end Draft

end ScriptMigration
