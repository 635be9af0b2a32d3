import ScriptMigration.Proofs.Syntax.Regular

/-! The layers of a tree. Types hold members, procedures hold parameters and a block, blocks hold
statements, and expressions hold nothing but expressions; so a procedure is never found below another
one, and what stands below an expression declares nothing. -/
namespace ScriptMigration

/-- Whether a node of the first family can have a part of the second. -/
def Shape.Family.holds : Family → Family → Bool
  | .type, .type | .type, .field | .type, .method | .type, .property => true
  | .property, .method => true
  | .method, .param | .method, .block => true
  | .field, .expression | .param, .expression | .localVar, .expression => true
  | .block, .localVar | .block, .statement => true
  | .statement, .block | .statement, .expression => true
  | .expression, .expression => true
  | _, _ => false

/-- Whether this stands in the body of a procedure, or is a body. -/
def Shape.Family.isInner : Family → Bool
  | .localVar | .block | .statement | .expression => true
  | _ => false

namespace Shape.Family

theorem eq_expression_of_holds {family : Family} (holds : Family.expression.holds family) :
    family = .expression := by
  cases family <;> simp [Family.holds] at holds ⊢

theorem isInner_of_holds {outer family : Family} (inner : outer.isInner)
    (holds : outer.holds family) : family.isInner := by
  cases outer <;> cases family <;> simp_all [Family.holds, Family.isInner]

theorem inner_of_holds {outer family : Family} (holds : outer.holds family) (noType : outer ≠ .type)
    (noProperty : outer ≠ .property) : family ≠ .type ∧ family ≠ .property ∧ family ≠ .method := by
  cases outer <;> cases family <;> simp_all [Family.holds]

theorem outer_of_holds {outer family : Family} (holds : outer.holds family) (noType : outer ≠ .type) :
    family ≠ .type ∧ family ≠ .property := by
  cases outer <;> cases family <;> simp_all [Family.holds]

end Shape.Family

/-- Whether a text can have such a node: no text has a `Return`, a variable for the value that a function
gives back, or a reference to a text that was moved elsewhere. -/
def Shape.isSource {α : Type} : Shape α → Bool
  | .returnStmt _ | .resource .. => false
  | .field decl | .localVar decl => decl.origin != .returnValue
  | _ => true

@[simp] theorem Shape.isSource_mapParts {α β : Type} (shape : Shape α)
    (f : (a : α) → a ∈ shape.children → β) : (shape.mapParts f).isSource = shape.isSource := by
  cases shape with
  | loop test body => cases test <;> rfl
  | _ => rfl

/-- Whether a text can have such a node before anything is made of it: all its variables are written
there, and no type is kept to its owner. -/
def Shape.isWritten {α : Type} : Shape α → Bool
  | .returnStmt _ | .resource .. => false
  | .field decl | .localVar decl => decl.origin == .source
  | .type decl => decl.visibility != .owner
  | _ => true

@[simp] theorem Shape.isWritten_mapParts {α β : Type} (shape : Shape α)
    (f : (a : α) → a ∈ shape.children → β) : (shape.mapParts f).isWritten = shape.isWritten := by
  cases shape with
  | loop test body => cases test <;> rfl
  | _ => rfl

theorem Shape.isSource_of_isWritten {α : Type} {shape : Shape α} (written : shape.isWritten) :
    shape.isSource := by
  cases shape with
  | field decl | localVar decl =>
    rw [isWritten, beq_iff_eq] at written
    rw [isSource, written]
    rfl
  | returnStmt | resource => exact nomatch written
  | _ => rfl

/-- Whether a text can spell this out: not a property, which it has the accessors of, and not a
constructor or destructor. -/
def Shape.isSpelt {α : Type} : Shape α → Bool
  | .property _ => false
  | .method decl => !decl.kind.isLifecycle
  | _ => true

@[simp] theorem Shape.isSpelt_mapParts {α β : Type} (shape : Shape α)
    (f : (a : α) → a ∈ shape.children → β) : (shape.mapParts f).isSpelt = shape.isSpelt := by
  cases shape with
  | loop test body => cases test <;> rfl
  | _ => rfl

theorem Shape.isSpelt_of_family {α : Type} {shape : Shape α} (noMethod : shape.family ≠ .method)
    (noProperty : shape.family ≠ .property) : shape.isSpelt := by
  cases shape <;> simp_all [Shape.family, Shape.isSpelt]

namespace Node

/-- The parts of a node are such as it can have, and the last part of a procedure is its body. -/
structure Layered (node : Node) : Prop where
  parts : ∀ part ∈ node.children, node.shape.family.holds part.shape.family
  body : node.shape.family = .method → ∀ part ∈ node.children.getLast?,
    part.shape.family = .block

def InLayers (root : Node) : Prop := ∀ node ∈ root.descendants, node.Layered

theorem layered_steady : Steady Layered := by
  intro g node family layered
  refine ⟨fun part inside => ?_, fun isMethod part isLast => ?_⟩
  · rw [children_withParts] at inside
    obtain ⟨old, among, rfl⟩ := List.mem_map.1 inside
    rw [family_withParts, family]
    exact layered.parts old among
  · rw [children_withParts, List.getLast?_map] at isLast
    obtain ⟨old, isOld, rfl⟩ := Option.map_eq_some_iff.1 isLast
    rw [family_withParts] at isMethod
    rw [family]
    exact layered.body isMethod old isOld

theorem layered_of_bare {node : Node} (bare : node.children = []) : node.Layered := by
  refine ⟨fun part inside => ?_, fun _ part isLast => ?_⟩
  · rw [bare] at inside
    exact nomatch inside
  · rw [bare] at isLast
    exact nomatch isLast

theorem layered_of_parts {node : Node} (differs : node.shape.family ≠ .method)
    (parts : ∀ part ∈ node.children, node.shape.family.holds part.shape.family) : node.Layered :=
  ⟨parts, fun isMethod => absurd isMethod differs⟩

theorem layered_method {info : NodeInfo} {decl : MethodDecl Node}
    (params : ∀ param ∈ decl.params, Shape.Family.method.holds param.shape.family)
    (body : decl.body.shape.family = .block) : (Node.mk info (.method decl)).Layered := by
  have whole : (Node.mk info (.method decl)).children = decl.params ++ [decl.body] := rfl
  refine ⟨fun part inside => ?_, fun _ part isLast => ?_⟩
  · rw [whole] at inside
    rcases List.mem_append.1 inside with isParam | isBody
    · exact params part isParam
    · rw [List.mem_singleton.1 isBody, body]
      rfl
  · rw [whole, List.getLast?_concat] at isLast
    rw [← Option.some.inj isLast]
    exact body

namespace Layered

variable {node : Node} {decl : MethodDecl Node}

theorem family_body (layered : node.Layered) (shape : node.shape = .method decl) :
    decl.body.shape.family = .block := by
  refine layered.body (by rw [shape]; rfl) decl.body ?_
  rw [children, shape]
  exact List.getLast?_concat

theorem stmts_body (layered : node.Layered) (shape : node.shape = .method decl) :
    decl.body.stmts = decl.body.children := by
  obtain ⟨stmts, isBlock⟩ := (Shape.family_eq_block_iff _).1 (layered.family_body shape)
  rw [Node.stmts, children, isBlock]
  rfl

end Layered

namespace InLayers

variable {root node part : Node}

theorem below (layers : root.InLayers) (inside : node ∈ root.descendants) : node.InLayers :=
  fun deeper lies => layers deeper (mem_descendants_trans lies inside)

theorem here (layers : root.InLayers) : root.Layered := layers root root.mem_descendants_self

theorem child (layers : root.InLayers) (inside : part ∈ root.children) : part.InLayers :=
  layers.below (child_mem_descendants inside)

/-- All that is below a node in the body of a procedure belongs to a body. -/
theorem isInner_below (layers : root.InLayers) (inner : root.shape.family.isInner) :
    ∀ below ∈ root.descendants, below.shape.family.isInner := by
  intro below lies
  induction root using Node.induction with
  | step root ih =>
    rcases mem_descendants_cases lies with rfl | ⟨part, inside, deeper⟩
    · exact inner
    · exact ih part inside (layers.child inside)
        (Shape.Family.isInner_of_holds inner (layers.here.parts part inside)) deeper

theorem expression_below (layers : root.InLayers) (isExpression : root.shape.family = .expression) :
    ∀ below ∈ root.descendants, below.shape.family = .expression := by
  intro below lies
  induction root using Node.induction with
  | step root ih =>
    rcases mem_descendants_cases lies with rfl | ⟨part, inside, deeper⟩
    · exact isExpression
    · have held := layers.here.parts part inside
      rw [isExpression] at held
      exact ih part inside (layers.child inside) (Shape.Family.eq_expression_of_holds held) deeper

theorem inner_below (layers : root.InLayers) (noType : root.shape.family ≠ .type)
    (noProperty : root.shape.family ≠ .property) {below : Node} (lies : below ∈ root.descendants) :
    below = root ∨ below.shape.family ≠ .type ∧ below.shape.family ≠ .property ∧
      below.shape.family ≠ .method := by
  induction root using Node.induction with
  | step root ih =>
    rcases mem_descendants_cases lies with rfl | ⟨part, inside, deeper⟩
    · exact .inl rfl
    · have inner := Shape.Family.inner_of_holds (layers.here.parts part inside) noType noProperty
      rcases ih part inside (layers.child inside) inner.1 inner.2.1 deeper with rfl | further
      · exact .inr inner
      · exact .inr further

/-- A pass that puts leaves before the parts of nodes that can have them keeps the layers. -/
theorem mapUp {f : Node → Node} {leaves : Node → List Node} (layers : root.InLayers)
    (adds : Adds f leaves) (fitting : ∀ node : Node, ∀ leaf ∈ leaves node,
      node.shape.family.holds leaf.shape.family) : (root.mapUp f).InLayers := by
  intro new inside
  obtain ⟨old, lies, rfl | leaf⟩ := adds.mem_descendants_mapUp.1 inside
  · have layered := layers old lies
    refine ⟨fun part isPart => ?_, fun isMethod part isLast => ?_⟩
    · rw [adds.family_mapUp]
      rw [adds.children_mapUp] at isPart
      rcases List.mem_append.1 isPart with leaf | mapped
      · have held := fitting _ part leaf
        rwa [family_rebuilt] at held
      · obtain ⟨source, among, rfl⟩ := List.mem_map.1 mapped
        rw [adds.family_mapUp]
        exact layered.parts source among
    · rw [adds.family_mapUp] at isMethod
      rw [adds.children_mapUp, List.getLast?_append, List.getLast?_map] at isLast
      have isThere : old.children.getLast?.isSome := by
        rcases old with ⟨info, shape⟩
        cases shape with
        | method decl => simp [Node.children, Node.shape, Shape.children]
        | _ => simp [Node.shape, Shape.family, Shape.isExpression] at isMethod
      obtain ⟨source, isSource⟩ := Option.isSome_iff_exists.1 isThere
      rw [isSource] at isLast
      obtain rfl := Option.some.inj isLast
      rw [adds.family_mapUp]
      exact layered.body isMethod source isSource
  · exact layered_of_bare (adds.bare _ new leaf)

end InLayers

def Spelt (root : Node) : Prop := ∀ node ∈ root.descendants, node.shape.isSpelt

namespace Spelt

variable {root node part : Node}

theorem here (spelt : root.Spelt) : root.shape.isSpelt := spelt root root.mem_descendants_self

theorem below (spelt : root.Spelt) (inside : node ∈ root.descendants) : node.Spelt :=
  fun deeper lies => spelt deeper (mem_descendants_trans lies inside)

theorem child (spelt : root.Spelt) (inside : part ∈ root.children) : part.Spelt :=
  spelt.below (child_mem_descendants inside)

theorem ofParts (here : node.shape.isSpelt) (parts : ∀ part ∈ node.children, part.Spelt) :
    node.Spelt := forall_of_parts here parts

theorem ofLayers (layers : root.InLayers) (noType : root.shape.family ≠ .type)
    (noProperty : root.shape.family ≠ .property) (spelt : root.shape.isSpelt) : root.Spelt := by
  intro below lies
  rcases layers.inner_below noType noProperty lies with rfl | ⟨-, isProperty, isMethod⟩
  · exact spelt
  · exact Shape.isSpelt_of_family isMethod isProperty

end Spelt

def InSource (root : Node) : Prop := ∀ node ∈ root.descendants, node.shape.isSource

/-- A pass that makes only what a text can have. -/
theorem InSource.mapUp {root : Node} {f : Node → Node} {leaves : Node → List Node}
    (source : root.InSource) (adds : Adds f leaves)
    (kept : ∀ node : Node, node.shape.isSource → (f node).shape.isSource)
    (made : ∀ node : Node, ∀ leaf ∈ leaves node, leaf.shape.isSource) : (root.mapUp f).InSource := by
  intro new inside
  obtain ⟨old, lies, rfl | leaf⟩ := adds.mem_descendants_mapUp.1 inside
  · rw [mapUp_eq]
    exact kept _ ((Shape.isSource_mapParts old.shape _).trans (source old lies))
  · exact made _ new leaf

structure Said (node : Node) : Prop extends node.Layered where
  written : node.shape.isWritten

theorem said_steady : Steady Said := by
  intro g node family said
  refine ⟨layered_steady g node family said.toLayered, ?_⟩
  exact (Shape.isWritten_mapParts node.shape _).trans said.written

def AsRead (root : Node) : Prop := ∀ node ∈ root.descendants, node.Said

namespace AsRead

variable {root node part : Node}

theorem layers (read : root.AsRead) : root.InLayers := fun node inside => (read node inside).toLayered

theorem source (read : root.AsRead) : root.InSource := fun node inside =>
  Shape.isSource_of_isWritten (read node inside).written

theorem here (read : root.AsRead) : root.Said := read root root.mem_descendants_self

theorem child (read : root.AsRead) (inside : part ∈ root.children) : part.AsRead :=
  fun deeper lies => read deeper (mem_descendants_of_child inside lies)

theorem ofParts (said : node.Said) (parts : ∀ part ∈ node.children, part.AsRead) : node.AsRead :=
  forall_of_parts said parts

theorem mapUp_of_shape {f : Node → Node} (kept : ∀ node : Node, (f node).shape = node.shape)
    (read : root.AsRead) : (root.mapUp f).AsRead := by
  refine said_steady.mapUp (fun node => congrArg Shape.family (kept node)) (fun old _ below => ?_) read
  generalize old.rebuilt f = node at below ⊢
  have here : node.Said := below node node.mem_descendants_self
  have shape := kept node
  refine ofParts ⟨⟨?_, ?_⟩, ?_⟩ ?_
  · rw [children, shape]
    exact here.parts
  · rw [children, shape]
    exact here.body
  · rw [shape]
    exact here.written
  · rw [children, shape]
    exact fun part inside => AsRead.child below inside

end AsRead

end Node

end ScriptMigration
