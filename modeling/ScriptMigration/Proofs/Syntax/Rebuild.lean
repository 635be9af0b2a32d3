import Mathlib.Data.List.Flatten
import Mathlib.Data.List.Perm.Basic
import ScriptMigration.Proofs.Syntax.Places

/-! Trees that are rebuilt from their leaves up. The map of `Node.mapUp` may take nodes out of the
tree, put new ones in and hang parts elsewhere; the whole tree then loses and gains the identities
that its nodes do. Where the map keeps the parts and puts new leaves before those of some nodes, the
nodes and the places of the new tree are the images of the old ones and the new leaves. -/
namespace ScriptMigration

namespace Shape

variable {α β : Type}

theorem children_mapVar (decl : VarDecl α) (f : α → β) :
    varParts (mapVar decl fun part _ => f part) = (varParts decl).map f := by
  rcases decl with ⟨name, visibility, typeName, array, init, marks, origin⟩
  cases array <;> cases init <;> simp [varParts, mapVar]

theorem toList_mapOption (part : Option α) (f : α → β) :
    (mapOption part fun part _ => f part).toList = part.toList.map f := by
  cases part <;> simp [mapOption]

theorem parts_mapTest (test : CasePattern α) (f : α → β) :
    (mapTest test fun part _ => f part).parts = test.parts.map f := by
  cases test <;> simp [mapTest, CasePattern.parts]

theorem children_mapParts (shape : Shape α) (f : α → β) :
    (shape.mapParts fun part _ => f part).children = shape.children.map f := by
  cases shape with
  | field decl | localVar decl => exact children_mapVar decl f
  | property decl => simp [mapParts, children, PropertyDecl.accessors, toList_mapOption]
  | param decl => exact toList_mapOption _ f
  | ifStmt single arms otherwise =>
    simp [mapParts, children, toList_mapOption, List.flatMap_map, List.map_flatMap]
  | select subject cases otherwise =>
    simp [mapParts, children, toList_mapOption, List.flatMap_map, List.map_flatMap,
      parts_mapTest]
  | loop test body =>
    cases test with
    | none => rfl
    | some test => rcases test with ⟨kind, cond, _ | _⟩ <;> rfl
  | _ => simp [mapParts, children, toList_mapOption]

theorem mapVar_self (decl : VarDecl α) : (mapVar decl fun part _ => part) = decl := by
  rcases decl with ⟨name, visibility, typeName, array, init, marks, origin⟩
  cases array <;> cases init <;> simp [mapVar]

theorem mapOption_self (part : Option α) : (mapOption part fun part _ => part) = part := by
  cases part <;> rfl

theorem mapTest_self (test : CasePattern α) : (mapTest test fun part _ => part) = test := by
  cases test <;> rfl

theorem mapParts_self (shape : Shape α) : (shape.mapParts fun part _ => part) = shape := by
  cases shape with
  | field decl | localVar decl => exact congrArg _ (mapVar_self decl)
  | property decl => simp [mapParts, mapOption_self]
  | param decl =>
    exact congrArg (fun value => param { decl with default := value }) (mapOption_self decl.default)
  | returnStmt value => exact congrArg _ (mapOption_self value)
  | member object name => exact congrArg (member · name) (mapOption_self object)
  | loop test body => cases test <;> rfl
  | select subject cases otherwise => simp [mapParts, mapOption_self, mapTest_self]
  | _ => simp [mapParts, mapOption_self]

/-- What kind of node a shape is, with all statements but blocks taken together. -/
inductive Family where
  | type | field | method | property | param | localVar | block | statement | expression
deriving DecidableEq, Repr

def family : Shape α → Family
  | type _ => .type
  | field _ => .field
  | method _ => .method
  | property _ => .property
  | param _ => .param
  | localVar _ => .localVar
  | block _ => .block
  | shape => if shape.isExpression then .expression else .statement

theorem isExpression_iff (shape : Shape α) : shape.isExpression ↔ shape.family = .expression := by
  cases shape <;> simp [isExpression, family]

theorem family_eq_block_iff (shape : Shape α) :
    shape.family = .block ↔ ∃ stmts, shape = .block stmts := by
  cases shape <;> simp [isExpression, family]

theorem family_eq_type_iff (shape : Shape α) :
    shape.family = .type ↔ ∃ decl, shape = .type decl := by
  cases shape <;> simp [family, isExpression]

theorem family_eq_method_iff (shape : Shape α) :
    shape.family = .method ↔ ∃ decl, shape = .method decl := by
  cases shape <;> simp [isExpression, family]

theorem family_eq_property_iff (shape : Shape α) :
    shape.family = .property ↔ ∃ decl, shape = .property decl := by
  cases shape <;> simp [isExpression, family]

theorem isType_eq (shape : Shape α) : shape.isType = (shape.family == .type) := by
  cases shape <;> rfl

theorem isType_iff (shape : Shape α) : shape.isType ↔ ∃ decl, shape = .type decl := by
  cases shape <;> simp [isType]

theorem isMethod_eq (shape : Shape α) : shape.isMethod = (shape.family == .method) := by
  cases shape <;> rfl

@[simp] theorem family_mapParts (shape : Shape α) (f : (a : α) → a ∈ shape.children → β) :
    (shape.mapParts f).family = shape.family := by
  cases shape with
  | loop test body => cases test <;> rfl
  | _ => rfl

def isReference : Shape α → Bool
  | name _ | member .. => true
  | _ => false

theorem isExpression_of_isReference {shape : Shape α} (reference : shape.isReference) :
    shape.isExpression := by
  cases shape <;> first | rfl | exact nomatch reference

def isLogical : Shape α → Bool
  | binary op .. => op.isLogical
  | unary .not _ => true
  | _ => false

@[simp] theorem isReference_mapParts (shape : Shape α) (f : (a : α) → a ∈ shape.children → β) :
    (shape.mapParts f).isReference = shape.isReference := by
  cases shape with
  | loop test body => cases test <;> rfl
  | _ => rfl

@[simp] theorem isLogical_mapParts (shape : Shape α) (f : (a : α) → a ∈ shape.children → β) :
    (shape.mapParts f).isLogical = shape.isLogical := by
  cases shape with
  | loop test body => cases test <;> rfl
  | unary op operand => cases op <;> rfl
  | _ => rfl

@[simp] theorem declName?_mapParts (shape : Shape α)
    (f : (a : α) → a ∈ shape.children → β) : (shape.mapParts f).declName? = shape.declName? := by
  cases shape with
  | loop test body => cases test <;> rfl
  | _ => rfl

@[simp] theorem nameText?_mapParts (shape : Shape α) (f : (a : α) → a ∈ shape.children → β) :
    (shape.mapParts f).nameText? = shape.nameText? := by
  cases shape with
  | loop test body => cases test <;> rfl
  | _ => rfl

theorem isReference_of_family {shape : Shape α} (differs : shape.family ≠ .expression) :
    shape.isReference = false := by
  cases shape with
  | name | member => simp [family, isExpression] at differs
  | _ => rfl

theorem isLogical_of_family {shape : Shape α} (differs : shape.family ≠ .expression) :
    shape.isLogical = false := by
  cases shape with
  | binary | unary => simp [family, isExpression] at differs
  | _ => rfl

theorem nameText?_of_family {shape : Shape α} (differs : shape.family ≠ .expression) :
    shape.nameText? = none := by
  cases shape with
  | name => simp [family, isExpression] at differs
  | _ => rfl

end Shape

namespace Node

def withParts (g : Node → Node) (node : Node) : Node :=
  node.withShape (node.shape.mapParts fun part _ => g part)

theorem children_withParts (g : Node → Node) (node : Node) :
    (node.withParts g).children = node.children.map g := Shape.children_mapParts node.shape g

@[simp] theorem family_withParts (g : Node → Node) (node : Node) :
    (node.withParts g).shape.family = node.shape.family := Shape.family_mapParts ..

def rebuilt (f : Node → Node) (node : Node) : Node := node.withParts (mapUp f)

theorem mapUp_eq (f : Node → Node) (node : Node) : node.mapUp f = f (node.rebuilt f) := by
  rw [mapUp, rebuilt, withParts]

@[simp] theorem id_rebuilt (f : Node → Node) (node : Node) : (node.rebuilt f).id = node.id := rfl

@[simp] theorem line_rebuilt (f : Node → Node) (node : Node) :
    (node.rebuilt f).line = node.line := rfl

theorem children_rebuilt (f : Node → Node) (node : Node) :
    (node.rebuilt f).children = node.children.map (mapUp f) := children_withParts ..

@[simp] theorem family_rebuilt (f : Node → Node) (node : Node) :
    (node.rebuilt f).shape.family = node.shape.family := family_withParts ..

theorem withParts_of_fixed {g : Node → Node} {node : Node}
    (fixed : ∀ part ∈ node.children, g part = part) : node.withParts g = node := by
  rcases node with ⟨info, shape⟩
  have same : (fun part (_ : part ∈ shape.children) => g part) = fun part _ => part := by
    funext part inside
    exact fixed part inside
  exact congrArg (Node.mk info) ((congrArg shape.mapParts same).trans shape.mapParts_self)

theorem shape_withShape (node : Node) (shape : Shape Node) :
    (node.withShape shape).shape = shape := rfl

/-- What is read from a shape without its parts is kept by a map that keeps it at each node. -/
theorem read_mapUp {β : Type} {read : Shape Node → β} {f : Node → Node}
    (parts : ∀ (shape : Shape Node) (g : (part : Node) → part ∈ shape.children → Node),
      read (shape.mapParts g) = read shape)
    (kept : ∀ node : Node, read (f node).shape = read node.shape) (node : Node) :
    read (node.mapUp f).shape = read node.shape := by
  rw [mapUp_eq, kept]
  exact parts _ _

section OfShape

variable {f : Node → Node}

/-- A pass that changes nothing but what nodes carry beside their shapes. -/
theorem shape_mapUp (kept : ∀ node : Node, (f node).shape = node.shape) (node : Node) :
    (node.mapUp f).shape = node.shape.mapParts fun part _ => part.mapUp f := by
  rw [mapUp_eq, kept]
  rfl

theorem descendants_mapUp (kept : ∀ node : Node, (f node).shape = node.shape) (root : Node) :
    (root.mapUp f).descendants = root.descendants.map (mapUp f) := by
  induction root using Node.induction with
  | step root ih =>
    have parts : (root.mapUp f).children = root.children.map (mapUp f) := by
      rw [mapUp_eq, children, kept]
      exact children_rebuilt f root
    have deeper : (root.children.map (mapUp f)).flatMap descendants =
        (root.children.flatMap descendants).map (mapUp f) := by
      rw [List.flatMap_map, List.map_flatMap]
      exact List.flatMap_congr ih
    rw [descendants_eq, parts, deeper, descendants_eq root, List.map_cons]

end OfShape

/-- A pass that keeps every node of a tree keeps the tree. -/
theorem mapUp_of_fixed {f : Node → Node} {root : Node}
    (fixed : ∀ node ∈ root.descendants, f node = node) : root.mapUp f = root := by
  induction root using Node.induction with
  | step root ih =>
    have parts : root.rebuilt f = root := withParts_of_fixed fun part inside =>
      ih part inside fun node below => fixed node (mem_descendants_of_child inside below)
    rw [mapUp_eq, parts]
    exact fixed root root.mem_descendants_self

theorem shape_of_methodDecl? {node : Node} {decl : MethodDecl Node}
    (found : node.methodDecl? = some decl) : node.shape = .method decl := by
  unfold methodDecl? at found
  split at found
  · rename_i shape
    rw [shape, Option.some.inj found]
  · exact nomatch found

theorem shape_of_typeDecl? {node : Node} {decl : TypeDecl Node}
    (found : node.typeDecl? = some decl) : node.shape = .type decl := by
  unfold typeDecl? at found
  split at found
  · rename_i shape
    rw [shape, Option.some.inj found]
  · exact nomatch found

theorem shape_rebuilt_of_method {node : Node} {decl : MethodDecl Node}
    (shape : node.shape = .method decl) (f : Node → Node) : (node.rebuilt f).shape =
      .method { decl with params := decl.params.map (mapUp f), body := decl.body.mapUp f } := by
  rcases node with ⟨info, _⟩
  obtain rfl := shape
  simp [rebuilt, withParts, withShape, Node.shape, Shape.mapParts]

theorem shape_rebuilt_of_type {node : Node} {decl : TypeDecl Node}
    (shape : node.shape = .type decl) (f : Node → Node) : (node.rebuilt f).shape =
      .type { decl with members := decl.members.map (mapUp f) } := by
  rcases node with ⟨info, _⟩
  obtain rfl := shape
  simp [rebuilt, withParts, withShape, Node.shape, Shape.mapParts]

theorem methodDecl?_rebuilt (f : Node → Node) (node : Node) : (node.rebuilt f).methodDecl? =
    node.methodDecl?.map fun decl =>
      { decl with params := decl.params.map (mapUp f), body := decl.body.mapUp f } := by
  rcases node with ⟨info, shape⟩
  cases shape with
  | method decl => simp [rebuilt, withParts, withShape, methodDecl?, Node.shape, Shape.mapParts]
  | loop test body => cases test <;> rfl
  | _ => rfl

theorem typeDecl?_rebuilt (f : Node → Node) (node : Node) : (node.rebuilt f).typeDecl? =
    node.typeDecl?.map fun decl => { decl with members := decl.members.map (mapUp f) } := by
  rcases node with ⟨info, shape⟩
  cases shape with
  | type decl => simp [rebuilt, withParts, withShape, typeDecl?, Node.shape, Shape.mapParts]
  | loop test body => cases test <;> rfl
  | _ => rfl

def idsBelow (nodes : List Node) : List NodeId := (nodes.flatMap descendants).map Node.id

@[simp] theorem idsBelow_nil : idsBelow [] = [] := rfl

@[simp] theorem idsBelow_append (left right : List Node) :
    idsBelow (left ++ right) = idsBelow left ++ idsBelow right := by
  simp [idsBelow]

theorem ids_eq (node : Node) : node.descendants.map Node.id = node.id :: idsBelow node.children := by
  rw [descendants_eq, List.map_cons, idsBelow]

theorem idsBelow_cons (node : Node) (rest : List Node) :
    idsBelow (node :: rest) = node.id :: (idsBelow node.children ++ idsBelow rest) := by
  rw [idsBelow, List.flatMap_cons, List.map_append, ids_eq]
  rfl

theorem idsBelow_perm {left right : List Node} (perm : left.Perm right) :
    (idsBelow left).Perm (idsBelow right) := (perm.flatMap_right _).map _

theorem descendants_perm_children (root : Node) :
    root.descendants.Perm (root :: root.descendants.flatMap children) := by
  induction root using Node.induction with
  | step root ih =>
    rw [descendants_eq, List.flatMap_cons, List.flatMap_assoc]
    refine .cons _ ?_
    have split : (root.children.flatMap descendants).Perm (root.children.flatMap fun part =>
        [part] ++ part.descendants.flatMap children) :=
      List.Perm.flatMap_left _ fun part inside => ih part inside
    refine split.trans ((List.flatMap_append_perm _ _ _).symm.trans ?_)
    rw [List.flatMap_singleton']

theorem Distinct.parts_nodup {root : Node} (distinct : root.Distinct) {pick : Node → List NodeId}
    (sub : ∀ old ∈ root.descendants, (pick old).Sublist (old.children.map Node.id)) :
    (root.descendants.flatMap pick).Nodup := by
  have once := ((descendants_perm_children root).map Node.id).nodup_iff.1 distinct
  rw [List.map_cons, List.map_flatMap] at once
  exact (List.nodup_cons.1 once).2.sublist (List.Sublist.flatMap_right _ sub)

/-- A map of nodes that keeps their identities and loses and gains some below them. -/
structure Regroups (fits : Node → Prop) (f : Node → Node) (lost gained : Node → List NodeId) :
    Prop where
  id : ∀ node, (f node).id = node.id
  parts : ∀ node, fits node → (idsBelow (f node).children ++ lost node).Perm
    (idsBelow node.children ++ gained node)

namespace Regroups

variable {fits : Node → Prop} {f : Node → Node} {lost gained : Node → List NodeId}

private theorem exchange {old middle new lostHere gainedHere lostBelow gainedBelow : List NodeId}
    (here : (new ++ lostHere).Perm (middle ++ gainedHere))
    (below : (middle ++ lostBelow).Perm (old ++ gainedBelow)) :
    (new ++ (lostHere ++ lostBelow)).Perm (old ++ (gainedHere ++ gainedBelow)) := by
  have first : (new ++ (lostHere ++ lostBelow)).Perm (middle ++ lostBelow ++ gainedHere) := by
    rw [← List.append_assoc]
    refine (here.append_right _).trans ?_
    rw [List.append_assoc, List.append_assoc]
    exact List.perm_append_comm.append_left _
  refine first.trans ((below.append_right _).trans ?_)
  rw [List.append_assoc]
  exact List.perm_append_comm.append_left _

theorem ids_children_rebuilt (regroups : Regroups fits f lost gained) (old : Node) :
    (old.rebuilt f).children.map Node.id = old.children.map Node.id := by
  rw [children_rebuilt, List.map_map]
  refine List.map_congr_left fun part _ => ?_
  rw [Function.comp_apply, mapUp_eq, regroups.id, id_rebuilt]

theorem ids_mapUp (regroups : Regroups fits f lost gained) {root : Node}
    (all : ∀ old ∈ root.descendants, fits (old.rebuilt f)) :
    ((root.mapUp f).descendants.map Node.id ++
      root.descendants.flatMap fun old => lost (old.rebuilt f)).Perm
    (root.descendants.map Node.id ++
      root.descendants.flatMap fun old => gained (old.rebuilt f)) := by
  induction root using Node.induction with
  | step root ih =>
    have own := regroups.parts _ (all root root.mem_descendants_self)
    rw [children_rebuilt] at own
    have inner : (idsBelow (root.children.map (mapUp f)) ++
        root.children.flatMap fun part => part.descendants.flatMap fun old =>
          lost (old.rebuilt f)).Perm (idsBelow root.children ++
        root.children.flatMap fun part => part.descendants.flatMap fun old =>
          gained (old.rebuilt f)) := by
      rw [idsBelow, idsBelow, List.flatMap_map, List.map_flatMap, List.map_flatMap]
      refine (List.flatMap_append_perm _ _ _).trans (.trans ?_ (List.flatMap_append_perm _ _ _).symm)
      exact List.Perm.flatMap_left _ fun part inside => ih part inside fun old lies =>
        all old (mem_descendants_of_child inside lies)
    rw [ids_eq, ids_eq, mapUp_eq, regroups.id, id_rebuilt, descendants_eq, List.flatMap_cons,
      List.flatMap_cons, List.flatMap_assoc, List.flatMap_assoc]
    refine .cons _ (exchange own inner)

end Regroups

/-- A map of nodes that keeps what a node is, and puts leaves before its parts. -/
structure Adds (f : Node → Node) (leaves : Node → List Node) : Prop where
  id : ∀ node, (f node).id = node.id
  family : ∀ node, (f node).shape.family = node.shape.family
  children : ∀ node, (f node).children = leaves node ++ node.children
  bare : ∀ node, ∀ leaf ∈ leaves node, leaf.children = []

namespace Adds

variable {f : Node → Node} {leaves : Node → List Node}

/-- A map that changes nothing but what a declaration is marked with. -/
theorem ofMarks (kept : ∀ node, (f node).id = node.id ∧
    (f node).shape.family = node.shape.family ∧ (f node).children = node.children) :
    Adds f fun _ => [] :=
  ⟨fun node => (kept node).1, fun node => (kept node).2.1, fun node => (kept node).2.2,
    fun _ _ absurd => nomatch absurd⟩

theorem id_mapUp (adds : Adds f leaves) (node : Node) : (node.mapUp f).id = node.id := by
  rw [mapUp_eq, adds.id, id_rebuilt]

theorem family_mapUp (adds : Adds f leaves) (node : Node) :
    (node.mapUp f).shape.family = node.shape.family := by
  rw [mapUp_eq, adds.family, family_rebuilt]

theorem children_mapUp (adds : Adds f leaves) (node : Node) :
    (node.mapUp f).children = leaves (node.rebuilt f) ++ node.children.map (mapUp f) := by
  rw [mapUp_eq, adds.children, children_rebuilt]

theorem descendants_leaf (adds : Adds f leaves) {node leaf : Node} (inside : leaf ∈ leaves node) :
    leaf.descendants = [leaf] := by
  rw [descendants_eq, adds.bare node leaf inside]
  rfl

theorem mem_descendants_mapUp (adds : Adds f leaves) {node below : Node} :
    below ∈ (node.mapUp f).descendants ↔
      ∃ old ∈ node.descendants, below = old.mapUp f ∨ below ∈ leaves (old.rebuilt f) := by
  induction node using Node.induction with
  | step node ih =>
    constructor
    · intro found
      rcases mem_descendants_cases found with rfl | ⟨part, inside, deeper⟩
      · exact ⟨node, node.mem_descendants_self, .inl rfl⟩
      · rw [adds.children_mapUp] at inside
        rcases List.mem_append.1 inside with leaf | mapped
        · rw [adds.descendants_leaf leaf] at deeper
          obtain rfl := List.mem_singleton.1 deeper
          exact ⟨node, node.mem_descendants_self, .inr leaf⟩
        · obtain ⟨source, among, rfl⟩ := List.mem_map.1 mapped
          obtain ⟨old, lies, origin⟩ := (ih source among).1 deeper
          exact ⟨old, mem_descendants_of_child among lies, origin⟩
    · rintro ⟨old, lies, origin⟩
      rcases mem_descendants_cases lies with rfl | ⟨part, inside, deeper⟩
      · rcases origin with rfl | leaf
        · exact mem_descendants_self _
        · refine child_mem_descendants ?_
          rw [adds.children_mapUp]
          exact List.mem_append_left _ leaf
      · refine mem_descendants_of_child ?_ ((ih part inside).2 ⟨old, deeper, origin⟩)
        rw [adds.children_mapUp]
        exact List.mem_append_right _ (List.mem_map.2 ⟨part, inside, rfl⟩)

theorem regroups (adds : Adds f leaves) :
    Regroups (fun _ => True) f (fun _ => []) fun node => (leaves node).map Node.id := by
  refine ⟨adds.id, fun node _ => ?_⟩
  have alone : idsBelow (leaves node) = (leaves node).map Node.id := by
    rw [idsBelow, List.flatMap_congr fun leaf inside => adds.descendants_leaf inside]
    simp
  rw [adds.children, idsBelow_append, alone, List.append_nil]
  exact List.perm_append_comm

theorem ids_mapUp_perm (adds : Adds f leaves) (node : Node) :
    ((node.mapUp f).descendants.map Node.id).Perm (node.descendants.map Node.id ++
      node.descendants.flatMap fun old => (leaves (old.rebuilt f)).map Node.id) := by
  have perm := adds.regroups.ids_mapUp fun old (_ : old ∈ node.descendants) => trivial
  rwa [List.flatMap_eq_nil_iff.2 fun _ _ => rfl, List.append_nil] at perm

theorem distinct_mapUp (adds : Adds f leaves) {root : Node} (distinct : root.Distinct)
    (fresh : ∀ old ∈ root.descendants, ∀ leaf ∈ leaves (old.rebuilt f),
      leaf.id ∉ root.descendants.map Node.id)
    (apart : (root.descendants.flatMap fun old => (leaves (old.rebuilt f)).map Node.id).Nodup) :
    (root.mapUp f).Distinct := by
  refine (adds.ids_mapUp_perm root).nodup_iff.2 (List.nodup_append'.2 ⟨distinct, apart, ?_⟩)
  intro id old new
  obtain ⟨source, lies, among⟩ := List.mem_flatMap.1 new
  obtain ⟨leaf, inside, rfl⟩ := List.mem_map.1 among
  exact fresh source lies leaf inside old

theorem ids_mapUp_of_none (adds : Adds f fun _ => []) (node : Node) :
    ((node.mapUp f).descendants.map Node.id).Perm (node.descendants.map Node.id) := by
  have perm := adds.ids_mapUp_perm node
  have none : (node.descendants.flatMap fun _ => ([] : List Node).map Node.id) = [] :=
    List.flatMap_eq_nil_iff.2 fun _ _ => rfl
  rwa [none, List.append_nil] at perm

theorem distinct_of_none (adds : Adds f fun _ => []) {root : Node} (distinct : root.Distinct) :
    (root.mapUp f).Distinct := (adds.ids_mapUp_of_none root).nodup_iff.2 distinct

end Adds

/-- Two nodes with one identity that are the same as far as notes are concerned. -/
structure Traces (node old : Node) : Prop where
  id : node.id = old.id
  family : node.shape.family = old.shape.family
  reference : node.shape.isReference = old.shape.isReference
  logical : node.shape.isLogical = old.shape.isLogical
  name : node.nameText? = old.nameText?

theorem Traces.refl (node : Node) : node.Traces node := ⟨rfl, rfl, rfl, rfl, rfl⟩

theorem Traces.symm {node old : Node} (traces : node.Traces old) : old.Traces node :=
  ⟨traces.id.symm, traces.family.symm, traces.reference.symm, traces.logical.symm,
    traces.name.symm⟩

theorem Traces.trans {first second third : Node} (left : first.Traces second)
    (right : second.Traces third) : first.Traces third :=
  ⟨left.id.trans right.id, left.family.trans right.family, left.reference.trans right.reference,
    left.logical.trans right.logical, left.name.trans right.name⟩

theorem Adds.traces_mapUp {f : Node → Node} {leaves : Node → List Node} (adds : Adds f leaves)
    (fixes : ∀ node : Node, node.shape.family = .expression → f node = node) (old : Node) :
    (old.mapUp f).Traces old := by
  have family := adds.family_mapUp old
  by_cases expression : old.shape.family = .expression
  · have shape : (old.mapUp f).shape = old.shape.mapParts fun part _ => part.mapUp f := by
      rw [mapUp_eq, fixes _ (by rwa [family_rebuilt])]
      rfl
    refine ⟨adds.id_mapUp old, family, ?_, ?_, ?_⟩
    · rw [shape, Shape.isReference_mapParts]
    · rw [shape, Shape.isLogical_mapParts]
    · rw [nameText?, shape, Shape.nameText?_mapParts, nameText?]
  · have mapped : (old.mapUp f).shape.family ≠ .expression := by rwa [family]
    refine ⟨adds.id_mapUp old, family, ?_, ?_, ?_⟩
    · rw [Shape.isReference_of_family mapped, Shape.isReference_of_family expression]
    · rw [Shape.isLogical_of_family mapped, Shape.isLogical_of_family expression]
    · rw [nameText?, Shape.nameText?_of_family mapped, nameText?,
        Shape.nameText?_of_family expression]

theorem Adds.traces_of_mem {f : Node → Node} {leaves : Node → List Node} (adds : Adds f leaves)
    (fixes : ∀ node : Node, node.shape.family = .expression → f node = node) {root node : Node}
    (found : node ∈ (root.mapUp f).descendants) : (∃ old ∈ root.descendants, node.Traces old) ∨
      ∃ old ∈ root.descendants, node ∈ leaves (old.rebuilt f) := by
  obtain ⟨old, lies, rfl | leaf⟩ := adds.mem_descendants_mapUp.1 found
  · exact .inl ⟨old, lies, adds.traces_mapUp fixes old⟩
  · exact .inr ⟨old, lies, leaf⟩

end Node

def Place.mapUp (f : Node → Node) (place : Place) : Place :=
  ⟨place.node.mapUp f, place.around.map (Node.mapUp f)⟩

namespace Node.Adds

variable {f : Node → Node} {leaves : Node → List Node}

private theorem mem_belowUp_mapUp (adds : Adds f leaves) {around : List Node} {node : Node}
    {place : Place} (found : place ∈ Place.belowUp (around.map (Node.mapUp f)) (node.mapUp f)) :
    (∃ old ∈ Place.belowUp around node, place = old.mapUp f) ∨
      ∃ old ∈ node.descendants, place.node ∈ leaves (old.rebuilt f) := by
  induction node using Node.induction generalizing around with
  | step node ih =>
    rcases Place.mem_belowUp_cases found with rfl | ⟨part, inside, deeper⟩
    · refine .inl ⟨⟨node, around⟩, ?_, rfl⟩
      rw [Place.belowUp_eq]
      exact List.mem_append_right _ (List.mem_singleton.2 rfl)
    · rw [adds.children_mapUp] at inside
      rcases List.mem_append.1 inside with leaf | mapped
      · have lies := Place.node_mem_descendants deeper
        rw [adds.descendants_leaf leaf] at lies
        obtain same := List.mem_singleton.1 lies
        exact .inr ⟨node, node.mem_descendants_self, same ▸ leaf⟩
      · obtain ⟨source, among, rfl⟩ := List.mem_map.1 mapped
        rw [← List.map_cons] at deeper
        rcases ih source among deeper with ⟨old, lies, same⟩ | ⟨old, lies, leaf⟩
        · refine .inl ⟨old, ?_, same⟩
          rw [Place.belowUp_eq]
          exact List.mem_append_left _ (List.mem_flatMap.2 ⟨source, among, lies⟩)
        · exact .inr ⟨old, mem_descendants_of_child among lies, leaf⟩

theorem mem_placesUp_mapUp (adds : Adds f leaves) {root : Node} {place : Place}
    (found : place ∈ (root.mapUp f).placesUp) : (∃ old ∈ root.placesUp, place = old.mapUp f) ∨
      ∃ old ∈ root.descendants, place.node ∈ leaves (old.rebuilt f) :=
  mem_belowUp_mapUp adds found

theorem mapUp_mem_placesUp (adds : Adds f leaves) {root : Node} {place : Place} (found : place ∈ root.placesUp) :
    place.mapUp f ∈ (root.mapUp f).placesUp := by
  have deeper (node : Node) (around : List Node) (found : place ∈ Place.belowUp around node) :
      place.mapUp f ∈ Place.belowUp (around.map (Node.mapUp f)) (node.mapUp f) := by
    induction node using Node.induction generalizing around with
    | step node ih =>
      rcases Place.mem_belowUp_cases found with rfl | ⟨part, inside, below⟩
      · exact Place.mem_belowUp_self _ _
      · rw [Place.belowUp_eq, adds.children_mapUp]
        refine List.mem_append_left _ (List.mem_flatMap.2 ⟨part.mapUp f, ?_, ih part inside _ below⟩)
        exact List.mem_append_right _ (List.mem_map_of_mem inside)
  exact deeper root [] found

end Node.Adds

namespace Place

variable {f : Node → Node} {leaves : Node → List Node}

theorem types_mapUp (adds : Node.Adds f leaves) (place : Place) :
    (place.mapUp f).types = place.types.map (Node.mapUp f) := by
  unfold types mapUp
  rw [List.filter_map]
  congr 2
  funext node
  rw [Function.comp_apply, Shape.isType_eq, adds.family_mapUp, ← Shape.isType_eq]

theorem type?_mapUp (adds : Node.Adds f leaves) (place : Place) :
    (place.mapUp f).type? = place.type?.map (Node.mapUp f) := by
  rw [type?_eq_head?, type?_eq_head?, types_mapUp adds, List.head?_map]

end Place

end ScriptMigration
