import ScriptMigration.Proofs.Grammar.ModuleLayers
import ScriptMigration.Proofs.Syntax.Tree

/-! Passes that change the members of types. In a tree as it is read no member but a type has a type
below it, so such a pass goes from type to type, and every type has its image in the new tree. -/
namespace ScriptMigration

namespace Node

variable {f : Node → Node} {root type member : Node} {decl : TypeDecl Node}

theorem typesBelow_eq (node : Node) : node.typesBelow =
    (if node.shape.isType then [node] else []) ++ node.children.flatMap typesBelow := by
  have deeper : (node.children.flatMap descendants).filter (·.shape.isType) =
      node.children.flatMap typesBelow := by
    rw [List.filter_flatMap]
    rfl
  rw [typesBelow, descendants_eq, List.filter_cons, deeper]
  split <;> simp

theorem mem_typesBelow : type ∈ root.typesBelow ↔ type ∈ root.descendants ∧ type.shape.isType := by
  simp [typesBelow]

theorem typesBelow_of_mem (none : root.typesBelow = []) (inside : member ∈ root.descendants) :
    member.typesBelow = [] := by
  rw [List.eq_nil_iff_forall_not_mem]
  intro type listed
  obtain ⟨below, isType⟩ := mem_typesBelow.1 listed
  have among := mem_typesBelow.2 ⟨mem_descendants_trans below inside, isType⟩
  simp [none] at among

theorem mapUp_of_no_types (keeps : ∀ node : Node, node.shape.isType = false → f node = node)
    (none : root.typesBelow = []) : root.mapUp f = root := by
  apply mapUp_of_fixed
  intro node inside
  apply keeps
  rw [Bool.eq_false_iff]
  intro isType
  have listed := mem_typesBelow.2 ⟨inside, isType⟩
  simp [none] at listed

theorem typesBelow_mapUp (step : ∀ old ∈ root.descendants,
    (f (old.rebuilt f)).shape.isType = old.shape.isType ∧
      (f (old.rebuilt f)).children.flatMap typesBelow =
        (old.rebuilt f).children.flatMap typesBelow) :
    (root.mapUp f).typesBelow = root.typesBelow.map (mapUp f) := by
  induction root using Node.induction with
  | step root ih =>
    obtain ⟨isType, parts⟩ := step root root.mem_descendants_self
    have deeper : (root.children.map (mapUp f)).flatMap typesBelow =
        (root.children.flatMap typesBelow).map (mapUp f) := by
      rw [List.flatMap_map, List.map_flatMap]
      apply List.flatMap_congr
      intro part inside
      exact ih part inside fun old below => step old (mem_descendants_of_child inside below)
    rw [typesBelow_eq, typesBelow_eq root, mapUp_eq, isType, parts, children_rebuilt, deeper,
      List.map_append]
    split <;> simp [mapUp_eq]

theorem InLayers.typesBelow_eq_nil (layers : root.InLayers) (noType : root.shape.isType = false) :
    root.typesBelow = [] := by
  apply List.filter_eq_nil_iff.2
  intro below lies
  rcases mem_descendants_cases lies with rfl | ⟨part, isPart, deeper⟩
  · simp [noType]
  rw [Shape.isType_eq, beq_eq_false_iff_ne] at noType
  have held := Shape.Family.outer_of_holds (layers.here.parts part isPart) noType
  rw [Shape.isType_eq, beq_iff_eq]
  rcases (layers.child isPart).inner_below held.1 held.2 deeper with rfl | ⟨isType, -⟩
  · exact held.1
  · exact isType

theorem InLayers.layers_member (layers : root.InLayers) (inside : type ∈ root.descendants)
    (shape : type.shape = .type decl) (listed : member ∈ decl.members) : member.InLayers :=
  (layers.below inside).child (by rwa [children, shape])

def Bare (members : List Node) : Prop :=
  ∀ member ∈ members, member.shape.isType = false → member.typesBelow = []

theorem Bare.flatMap_eq {members : List Node} (bare : Bare members) : members.flatMap typesBelow =
    (members.filter (·.shape.isType)).flatMap typesBelow := by
  induction members with
  | nil => rfl
  | cons member rest ih =>
    obtain ⟨here, later⟩ := List.forall_mem_cons.1 bare
    rw [List.flatMap_cons, List.filter_cons, ih later]
    cases isType : member.shape.isType with
    | false => simp [here isType]
    | true => simp

/-- A tree as it is read from a text. -/
structure Original (root : Node) : Prop where
  distinct : root.Distinct
  layers : root.InLayers
  declared : root.Declared

namespace Original

theorem nodup_members (original : root.Original) (inside : type ∈ root.descendants)
    (shape : type.shape = .type decl) : (decl.members.map Node.id).Nodup := by
  have once := original.distinct.children_nodup inside
  rwa [children, shape] at once

variable (original : root.Original) (inside : type ∈ root.descendants)
  (shape : type.shape = .type decl) (listed : member ∈ decl.members)

include original inside shape listed

theorem family_member : member.shape.family = .type ∨ member.shape.family = .field ∨
    member.shape.family = .method := by
  have held := (original.layers type inside).parts member (by rwa [children, shape])
  have noProperty : member.shape.family ≠ .property := by
    intro isProperty
    obtain ⟨property, isProperty⟩ := (Shape.family_eq_property_iff _).1 isProperty
    obtain ⟨method, isMethod, -⟩ := (original.declared type inside decl shape).constructor member
      listed (by simp [isProperty, Shape.isSpelt])
    simp [isProperty] at isMethod
  rw [shape] at held
  cases family : member.shape.family <;> simp_all [Shape.family, Shape.Family.holds]

theorem typesBelow_member (noType : member.shape.isType = false) : member.typesBelow = [] :=
  (original.layers.layers_member inside shape listed).typesBelow_eq_nil noType

end Original

/-- A member and its image under a pass: the same node unless it is a type. -/
structure Kept (old new : Node) : Prop where
  id : new.id = old.id
  family : new.shape.family = old.shape.family
  fixed : old.shape.isType = false → new = old

theorem Kept.isType {old new : Node} (kept : Kept old new) :
    new.shape.isType = old.shape.isType := by
  rw [Shape.isType_eq, kept.family, ← Shape.isType_eq]

/-- What a test finds among members it finds among their images, if these are the members that it
finds. -/
theorem filter_image {members : List Node} {g : Node → Node} {test : Node → Bool}
    (same : ∀ member ∈ members, test (g member) = test member)
    (fixed : ∀ member ∈ members, test member → g member = member) :
    (members.map g).filter test = members.filter test := by
  have picked : members.filter (test ∘ g) = members.filter test := List.filter_congr same
  rw [List.filter_map, picked]
  conv_rhs => rw [← List.map_id (members.filter test)]
  apply List.map_congr_left
  intro member listed
  obtain ⟨inside, holds⟩ := List.mem_filter.1 listed
  exact fixed member inside holds

/-- A pass that gives each type other members and keeps all else. -/
structure IsTypePass (f : Node → Node) (change : TypeDecl Node → List Node) : Prop where
  id : ∀ node : Node, (f node).id = node.id
  type : ∀ (node : Node) (decl : TypeDecl Node), node.shape = .type decl →
    (f node).shape = .type { decl with members := change decl }
  other : ∀ node : Node, node.shape.isType = false → f node = node

namespace IsTypePass

variable {change : TypeDecl Node → List Node} (pass : IsTypePass f change)

include pass

theorem family (node : Node) : (f node).shape.family = node.shape.family := by
  cases isType : node.shape.isType with
  | false => rw [pass.other node isType]
  | true =>
    obtain ⟨decl, shape⟩ := (Shape.isType_iff _).1 isType
    rw [pass.type node decl shape, shape]
    rfl

theorem id_mapUp (node : Node) : (node.mapUp f).id = node.id := by
  rw [mapUp_eq, pass.id, id_rebuilt]

theorem shape_mapUp (shape : type.shape = .type decl) : (type.mapUp f).shape = .type { decl with
    members := change { decl with members := decl.members.map (mapUp f) } } := by
  rw [mapUp_eq, pass.type _ _ (shape_rebuilt_of_type shape f)]

section InLayers

variable (layers : root.InLayers)

include layers

theorem kept (inside : type ∈ root.descendants) (shape : type.shape = .type decl) :
    ∀ member ∈ decl.members, Kept member (member.mapUp f) := by
  intro member listed
  constructor
  · exact pass.id_mapUp member
  · rw [mapUp_eq, pass.family, family_rebuilt]
  · intro noType
    exact mapUp_of_no_types pass.other ((layers.layers_member inside shape listed).typesBelow_eq_nil noType)

variable (distinct : root.Distinct)
  (keeps : ∀ decl : TypeDecl Node, Bare decl.members → (decl.members.map Node.id).Nodup →
    (change decl).flatMap typesBelow = decl.members.flatMap typesBelow)

include distinct keeps

theorem typesBelow_mapUp : (root.mapUp f).typesBelow = root.typesBelow.map (mapUp f) := by
  apply Node.typesBelow_mapUp
  intro old inside
  have same : (old.rebuilt f).shape.isType = old.shape.isType := by
    rw [Shape.isType_eq, family_rebuilt, ← Shape.isType_eq]
  constructor
  · rw [Shape.isType_eq, pass.family, ← Shape.isType_eq, same]
  cases isType : old.shape.isType with
  | false => rw [pass.other _ (same.trans isType)]
  | true =>
    obtain ⟨decl, shape⟩ := (Shape.isType_iff _).1 isType
    have rebuilt := shape_rebuilt_of_type shape f
    have members := pass.type _ _ rebuilt
    rw [children, children, members, rebuilt]
    apply keeps
    · intro part isPart noType
      obtain ⟨member, listed, rfl⟩ := List.mem_map.1 isPart
      have kept := pass.kept layers inside shape member listed
      rw [kept.isType] at noType
      rw [kept.fixed noType]
      exact (layers.layers_member inside shape listed).typesBelow_eq_nil noType
    · have once := distinct.children_nodup inside
      rw [children, shape] at once
      rw [List.map_map]
      simpa [Shape.children, Function.comp_def, pass.id_mapUp] using once

theorem ids_typesBelow : (root.mapUp f).typesBelow.map Node.id = root.typesBelow.map Node.id := by
  rw [pass.typesBelow_mapUp layers distinct keeps, List.map_map]
  exact List.map_congr_left fun type _ => pass.id_mapUp type

theorem mem_descendants (inside : type ∈ root.descendants) (shape : type.shape = .type decl) :
    type.mapUp f ∈ (root.mapUp f).descendants := by
  have listed : type ∈ root.typesBelow := mem_typesBelow.2 ⟨inside, by simp [shape, Shape.isType]⟩
  have image := List.mem_map_of_mem (f := mapUp f) listed
  rw [← pass.typesBelow_mapUp layers distinct keeps] at image
  exact (mem_typesBelow.1 image).1

theorem linksIn {holds : NodeId → NodeId → Prop} (links : root.LinksIn holds)
    (step : ∀ (type : Node) (decl : TypeDecl Node), type.shape = .type decl →
      type ∈ root.descendants → type.mapUp f ∈ (root.mapUp f).descendants →
      (∀ part ∈ decl.members.map (mapUp f), holds part.id type.id ∧ part.LinksIn holds) →
      ∀ part ∈ change { decl with members := decl.members.map (mapUp f) },
        holds part.id type.id ∧ part.LinksIn holds) : (root.mapUp f).LinksIn holds := by
  refine links.mapUp pass.id fun old lies rebuilt => ?_
  cases isType : old.shape.isType with
  | false =>
    rw [pass.other _ (by rw [Shape.isType_eq, family_rebuilt, ← Shape.isType_eq, isType])]
    exact rebuilt
  | true =>
    obtain ⟨decl, shape⟩ := (Shape.isType_iff _).1 isType
    have before := shape_rebuilt_of_type shape f
    refine .ofParts fun part isPart => ?_
    rw [pass.id, id_rebuilt]
    refine step old decl shape lies (pass.mem_descendants layers distinct keeps lies shape) ?_ part ?_
    · intro part isPart
      exact rebuilt.part (by rwa [children, before])
    · rwa [children, pass.type _ _ before] at isPart

end InLayers

end IsTypePass

end Node

theorem parseModule_original {text name : String} {module : Module}
    (parsed : parseModule text name = .ok module) : module.root.Original := by
  have distinct := (parseModule_numbered parsed).distinct
  rw [List.flatMap_singleton] at distinct
  exact ⟨distinct, (parseModule_asRead parsed).layers, parseModule_declared parsed⟩

end ScriptMigration
