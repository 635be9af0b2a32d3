import ScriptMigration.Proofs.Syntax.Rebuild

/-! Which nodes stand where in a tree: values are expressions, parameters are parameters, the body of
a procedure is a block, and the accessors of a property are procedures. A number that is written has no
sign. -/
namespace ScriptMigration

namespace Shape

variable {α β : Type}

def demands : Shape α → List (Family × α)
  | .field decl | .localVar decl => decl.init.toList.map (.expression, ·)
  | .param decl => decl.default.toList.map (.expression, ·)
  | .assign _ _ value => [(.expression, value)]
  | .forRange _ first last _ _ => [(.expression, first), (.expression, last)]
  | .call _ _ args => args.map (.expression, ·)
  | .method decl => decl.params.map (.param, ·) ++ [(.block, decl.body)]
  | .property decl => decl.accessors.map (.method, ·)
  | _ => []

theorem demands_mapParts (shape : Shape α) (f : α → β) :
    (shape.mapParts fun part _ => f part).demands = shape.demands.map (Prod.map id f) := by
  cases shape with
  | field decl | localVar decl =>
    simp only [mapParts, demands, mapVar]
    cases decl.init <;> rfl
  | param decl =>
    rcases decl with ⟨name, passing, marks, typeName, default⟩
    cases default <;> rfl
  | method decl => simp [mapParts, demands]
  | property decl =>
    rcases decl with ⟨name, visibility, marks, getter, letter, setter⟩
    cases getter <;> cases letter <;> cases setter <;> rfl
  | call parens callee args => simp [mapParts, demands]
  | loop test body => cases test <;> rfl
  | _ => rfl

def isUnsigned : Shape α → Bool
  | .literal (.int value) => decide (0 ≤ value)
  | _ => true

@[simp] theorem isUnsigned_mapParts (shape : Shape α) (f : (a : α) → a ∈ shape.children → β) :
    (shape.mapParts f).isUnsigned = shape.isUnsigned := by
  cases shape with
  | literal value => cases value <;> rfl
  | loop test body => cases test <;> rfl
  | _ => rfl

end Shape

namespace Node

/-- The parts of the node are what has to stand there, and it is no number below zero. -/
structure Regular (node : Node) : Prop where
  parts : ∀ demand ∈ node.shape.demands, demand.2.shape.family = demand.1
  unsigned : node.shape.isUnsigned

namespace Regular

variable {info : NodeInfo} {shape : Shape Node}

theorem ofNone (none : shape.demands = []) (unsigned : shape.isUnsigned) :
    (Node.mk info shape).Regular := by
  refine ⟨fun demand listed => ?_, unsigned⟩
  rw [show (Node.mk info shape).shape.demands = [] from none] at listed
  exact nomatch listed

theorem ofValues {values : List Node} (areExpressions : ∀ value ∈ values, value.shape.isExpression)
    (demands : shape.demands = values.map (.expression, ·)) (unsigned : shape.isUnsigned) :
    (Node.mk info shape).Regular := by
  refine ⟨fun demand listed => ?_, unsigned⟩
  rw [show (Node.mk info shape).shape.demands = _ from demands] at listed
  obtain ⟨value, among, rfl⟩ := List.mem_map.1 listed
  exact (Shape.isExpression_iff _).1 (areExpressions value among)

theorem ofMethod {decl : MethodDecl Node} (areParams : ∀ param ∈ decl.params,
    param.shape.family = .param) (isBlock : decl.body.shape.family = .block) :
    (Node.mk info (.method decl)).Regular := by
  refine ⟨fun demand listed => ?_, rfl⟩
  rcases List.mem_append.1 listed with listed | listed
  · obtain ⟨param, among, rfl⟩ := List.mem_map.1 listed
    exact areParams param among
  · obtain rfl := List.mem_singleton.1 listed
    exact isBlock

theorem isBlock {node : Node} {decl : MethodDecl Node} (regular : node.Regular)
    (shape : node.shape = .method decl) : decl.body.shape.family = .block := by
  refine regular.parts (.block, decl.body) ?_
  rw [shape]
  exact List.mem_append_right _ List.mem_cons_self

theorem withParts {g : Node → Node} {node : Node} (regular : node.Regular)
    (family : ∀ part : Node, (g part).shape.family = part.shape.family) :
    (node.withParts g).Regular := by
  refine ⟨fun demand listed => ?_, (Shape.isUnsigned_mapParts node.shape _).trans regular.unsigned⟩
  rw [show (node.withParts g).shape.demands = _ from Shape.demands_mapParts ..] at listed
  obtain ⟨old, among, rfl⟩ := List.mem_map.1 listed
  exact (family old.2).trans (regular.parts old among)

end Regular

/-- A property of nodes that asks no more of their parts than what they are. -/
def Steady (kept : Node → Prop) : Prop :=
  ∀ (g : Node → Node) (node : Node), (∀ part : Node, (g part).shape.family = part.shape.family) →
    kept node → kept (node.withParts g)

theorem regular_steady : Steady Regular := fun _ _ family regular => regular.withParts family

section MapUp

variable {kept : Node → Prop} {f : Node → Node}

/-- Where a map keeps a property in every node of a tree, the nodes over the rebuilt parts have it. -/
theorem Steady.rebuilt (steady : Steady kept)
    (family : ∀ node : Node, (f node).shape.family = node.shape.family) {root : Node}
    (keeps : ∀ old ∈ root.descendants, (∀ below ∈ (old.rebuilt f).descendants, kept below) →
      ∀ below ∈ (f (old.rebuilt f)).descendants, kept below)
    (holds : ∀ node ∈ root.descendants, kept node) :
    ∀ below ∈ (root.rebuilt f).descendants, kept below := by
  induction root using Node.induction with
  | step root ih =>
    intro below inside
    rcases mem_descendants_cases inside with rfl | ⟨part, isPart, deeper⟩
    · refine steady (mapUp f) root (fun part => ?_) (holds root root.mem_descendants_self)
      rw [mapUp_eq, family, family_rebuilt]
    · rw [children_rebuilt] at isPart
      obtain ⟨old, among, rfl⟩ := List.mem_map.1 isPart
      rw [mapUp_eq] at deeper
      have inner := ih old among
        (fun node lies => keeps node (mem_descendants_of_child among lies))
        (fun node lies => holds node (mem_descendants_of_child among lies))
      exact keeps old (child_mem_descendants among) inner below deeper

/-- What every node does to a tree with a property is done by a map over the whole tree. -/
theorem Steady.mapUp (steady : Steady kept)
    (family : ∀ node : Node, (f node).shape.family = node.shape.family) {root : Node}
    (keeps : ∀ old ∈ root.descendants, (∀ below ∈ (old.rebuilt f).descendants, kept below) →
      ∀ below ∈ (f (old.rebuilt f)).descendants, kept below)
    (holds : ∀ node ∈ root.descendants, kept node) :
    ∀ node ∈ (root.mapUp f).descendants, kept node := by
  rw [mapUp_eq]
  exact keeps root root.mem_descendants_self (steady.rebuilt family keeps holds)

end MapUp

/-- Where a map keeps every node of a tree regular in itself, the nodes over the rebuilt parts are
regular in themselves. -/
theorem regular_rebuilt {f : Node → Node}
    (family : ∀ node : Node, (f node).shape.family = node.shape.family) {root : Node}
    (keeps : ∀ old ∈ root.descendants, (∀ below ∈ (old.rebuilt f).descendants, below.Regular) →
      ∀ below ∈ (f (old.rebuilt f)).descendants, below.Regular)
    (regular : ∀ node ∈ root.descendants, node.Regular) :
    ∀ below ∈ (root.rebuilt f).descendants, below.Regular :=
  regular_steady.rebuilt family keeps regular

/-- What every node does to a regular tree is done by a map over the whole tree. -/
theorem regular_mapUp {f : Node → Node}
    (family : ∀ node : Node, (f node).shape.family = node.shape.family) {root : Node}
    (keeps : ∀ old ∈ root.descendants, (∀ below ∈ (old.rebuilt f).descendants, below.Regular) →
      ∀ below ∈ (f (old.rebuilt f)).descendants, below.Regular)
    (regular : ∀ node ∈ root.descendants, node.Regular) :
    ∀ node ∈ (root.mapUp f).descendants, node.Regular :=
  regular_steady.mapUp family keeps regular

section InType

variable {f : Node → Node}

/-- A part of a node, replaced unless it is a type. -/
def partInType (f : Node → Node) (part : Node) : Node :=
  if part.shape.isType then part else part.mapInType f

theorem mapInType_eq (f : Node → Node) (node : Node) :
    node.mapInType f = f (node.withParts (partInType f)) := by
  rw [mapInType]
  rfl

theorem ids_mapInType (adds : Adds f fun _ => []) (node : Node) :
    (node.mapInType f).descendants.map Node.id = node.descendants.map Node.id := by
  induction node using Node.induction with
  | step node ih =>
    rw [ids_eq, ids_eq, mapInType_eq, adds.id, adds.children, List.nil_append, children_withParts,
      idsBelow, idsBelow, List.flatMap_map, List.map_flatMap, List.map_flatMap]
    refine congrArg (node.id :: ·) (List.flatMap_congr fun part inside => ?_)
    unfold partInType
    split
    · rfl
    · exact ih part inside

theorem family_partInType (adds : Adds f fun _ => []) (part : Node) :
    (partInType f part).shape.family = part.shape.family := by
  unfold partInType
  split
  · rfl
  · rw [mapInType_eq, adds.family, family_withParts]

theorem Steady.mapInType {kept : Node → Prop} (steady : Steady kept) (adds : Adds f fun _ => [])
    (keeps : ∀ node : Node, kept node → kept (f node)) {root : Node}
    (holds : ∀ node ∈ root.descendants, kept node) :
    ∀ node ∈ (root.mapInType f).descendants, kept node := by
  induction root using Node.induction with
  | step root ih =>
    intro below inside
    rw [mapInType_eq] at inside
    rcases mem_descendants_cases inside with rfl | ⟨part, isPart, deeper⟩
    · have own := holds root root.mem_descendants_self
      exact keeps _ (steady _ root (family_partInType adds) own)
    · rw [adds.children, List.nil_append, children_withParts] at isPart
      obtain ⟨old, among, rfl⟩ := List.mem_map.1 isPart
      have inner : ∀ node ∈ old.descendants, kept node := fun node lies =>
        holds node (mem_descendants_of_child among lies)
      unfold partInType at deeper
      split at deeper
      · exact inner below deeper
      · exact ih old among inner below deeper

theorem regular_mapInType (adds : Adds f fun _ => [])
    (keeps : ∀ node : Node, node.Regular → (f node).Regular) {root : Node}
    (regular : ∀ node ∈ root.descendants, node.Regular) :
    ∀ node ∈ (root.mapInType f).descendants, node.Regular :=
  regular_steady.mapInType adds keeps regular

end InType

end Node

end ScriptMigration
