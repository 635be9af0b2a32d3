import ScriptMigration.Proofs.Syntax.Layers
import ScriptMigration.Proofs.Syntax.Tree

/-! Where the nodes of a tree stand: below what kind of node, and in which procedure. A pass over a
tree leaves a node where it stood as long as it neither moves it nor takes it out, so what is known of
the old tree is known of the new one, but for the expressions that are gone and the nodes that were
made. -/
namespace ScriptMigration

/-- What a node is a part of, and the procedure around it. -/
structure Setting where
  parent : Option Shape.Family
  method : Option NodeId

namespace Setting

def top : Setting := ⟨none, none⟩

end Setting

def Node.setting (node : Node) (outer : Setting) : Setting where
  parent := some node.shape.family
  method :=
    match node.shape.family with
    | .method => some node.id
    | .type => none
    | _ => outer.method

def Place.setting (place : Place) : Setting where
  parent := place.parent?.map (·.shape.family)
  method := place.method?.map Node.id

namespace Node

/-- A node of a tree and its setting. -/
inductive Stands (root : Node) : Setting → Node → Prop where
  | root : Stands root .top root
  | part {setting : Setting} {node part : Node} (stands : Stands root setting node)
      (inside : part ∈ node.children) : Stands root (node.setting setting) part

theorem setting_congr {node old : Node} (id : node.id = old.id)
    (family : node.shape.family = old.shape.family) (outer : Setting) :
    node.setting outer = old.setting outer := by
  unfold setting
  rw [id, family]

theorem method_setting_of_inner {node : Node} (inner : node.shape.family.isInner)
    (outer : Setting) : (node.setting outer).method = outer.method := by
  unfold setting
  cases family : node.shape.family <;> simp_all [Shape.Family.isInner]

end Node

namespace Place

theorem setting_part (node part : Node) (around : List Node) :
    (Place.mk part (node :: around)).setting = node.setting (Place.mk node around).setting := by
  have method : (Place.mk part (node :: around)).method? =
      if node.shape.isMethod then some node
      else if node.shape.isType then none else (Place.mk node around).method? := by
    unfold method?
    rw [List.find?_cons]
    cases isMethod : node.shape.isMethod <;> cases isType : node.shape.isType <;>
      simp [isMethod, Option.filter]
  unfold setting Node.setting
  rw [method, Shape.isMethod_eq, Shape.isType_eq]
  cases family : node.shape.family <;> simp [parent?, family]

end Place

namespace Node

variable {root node : Node} {setting : Setting}

/-- The parts of all nodes of a tree are such as these can have. -/
def Nested (root : Node) : Prop := ∀ node ∈ root.descendants, ∀ part ∈ node.children,
  node.shape.family.holds part.shape.family

theorem InLayers.nested (layers : root.InLayers) : root.Nested :=
  fun node inside => (layers node inside).parts

namespace Stands

theorem mem (stands : root.Stands setting node) : node ∈ root.descendants := by
  induction stands with
  | root => exact root.mem_descendants_self
  | part _ inside ih => exact mem_descendants_trans (child_mem_descendants inside) ih

theorem exists_place (stands : root.Stands setting node) :
    ∃ place ∈ root.places, place.node = node ∧ place.setting = setting := by
  induction stands with
  | root => exact ⟨⟨root, []⟩, mem_places_iff.2 (Place.mem_belowUp_self _ _), rfl, rfl⟩
  | part _ inside ih =>
    obtain ⟨⟨node, around⟩, found, rfl, rfl⟩ := ih
    exact ⟨_, mem_places_iff.2 (Place.mem_belowUp_part (mem_places_iff.1 found) inside), rfl,
      Place.setting_part _ _ _⟩

theorem unique (distinct : root.Distinct) {other : Node} {setting' : Setting}
    (stands : root.Stands setting node) (stands' : root.Stands setting' other)
    (same : node.id = other.id) : setting = setting' := by
  induction stands generalizing other setting' with
  | root =>
    cases stands' with
    | root => rfl
    | part above inside =>
      exact absurd (List.mem_map.2 ⟨other, inside, same.symm⟩)
        (distinct.root_not_mem_children above.mem)
  | part above inside ih =>
    cases stands' with
    | root =>
      exact absurd (List.mem_map.2 ⟨_, inside, same⟩) (distinct.root_not_mem_children above.mem)
    | part above' inside' =>
      have isParent := distinct.parent_unique above.mem above'.mem
        (List.mem_map.2 ⟨_, inside, same⟩) (List.mem_map.2 ⟨other, inside', rfl⟩)
      subst isParent
      rw [ih above' rfl]

theorem mem_method {id : NodeId} (stands : root.Stands setting node)
    (inMethod : setting.method = some id) : ∃ method ∈ root.descendants, method.id = id := by
  induction stands with
  | root => exact nomatch inMethod
  | @part outer parent _ above _ ih =>
    unfold Node.setting at inMethod
    dsimp only at inMethod
    split at inMethod
    · exact ⟨parent, above.mem, Option.some.inj inMethod⟩
    · exact nomatch inMethod
    · exact ih inMethod

theorem held (stands : root.Stands setting node) (nested : root.Nested) :
    ∀ family ∈ setting.parent, family.holds node.shape.family := by
  cases stands with
  | root => exact fun _ absurd => nomatch absurd
  | part above inside =>
    intro family isParent
    rw [← Option.some.inj isParent]
    exact nested _ above.mem _ inside

theorem below_inner (stands : root.Stands setting node) (layers : root.InLayers)
    (inner : node.shape.family.isInner) {below : Node} (lies : below ∈ node.descendants) :
    ∃ setting', root.Stands setting' below ∧ setting'.method = setting.method := by
  induction node using Node.induction generalizing setting with
  | step node ih =>
    rcases mem_descendants_cases lies with rfl | ⟨part, inside, deeper⟩
    · exact ⟨setting, stands, rfl⟩
    · have held := (layers node stands.mem).parts part inside
      obtain ⟨setting', stands', same⟩ := ih part inside (stands.part inside)
        (Shape.Family.isInner_of_holds inner held) deeper
      exact ⟨setting', stands', same.trans (method_setting_of_inner inner setting)⟩

/-- The statements and the variables of a tree whose root is a type are in procedures. -/
theorem inMethod (stands : root.Stands setting node) (layers : root.InLayers)
    (isType : root.shape.isType) (inside : node.shape.family = .block ∨
      node.shape.family = .statement ∨ node.shape.family = .localVar) : setting.method.isSome := by
  induction stands with
  | root =>
    rw [Shape.isType_eq, beq_iff_eq] at isType
    rw [isType] at inside
    simp at inside
  | @part outer parent part above isPart ih =>
    have held := (layers parent above.mem).parts part isPart
    unfold Node.setting
    dsimp only
    cases family : parent.shape.family with
    | method => rfl
    | block => exact ih (.inl family)
    | statement => exact ih (.inr (.inl family))
    | _ =>
      rw [family] at held
      rcases inside with same | same | same <;> rw [same] at held <;> exact nomatch held

end Stands

theorem exists_stands (inside : node ∈ root.descendants) : ∃ setting, root.Stands setting node := by
  have deeper (top : Node) {setting : Setting} (stands : root.Stands setting top)
      (lies : node ∈ top.descendants) : ∃ setting, root.Stands setting node := by
    induction top using Node.induction generalizing setting with
    | step top ih =>
      rcases mem_descendants_cases lies with rfl | ⟨part, isPart, lies⟩
      · exact ⟨setting, stands⟩
      · exact ih part isPart (stands.part isPart) lies
  exact deeper root .root inside

section Method

variable {decl : MethodDecl Node} (inside : node ∈ root.descendants) (shape : node.shape = .method decl)

include inside shape

theorem stands_in_method {part : Node} (isPart : part ∈ decl.params ++ [decl.body]) :
    ∃ setting, root.Stands setting part ∧ setting.method = some node.id := by
  obtain ⟨outer, stands⟩ := exists_stands inside
  refine ⟨_, stands.part ?_, ?_⟩
  · rw [children, shape]
    exact isPart
  · rw [setting, shape]
    rfl

theorem InLayers.stands_body (layers : root.InLayers) : ∃ setting, root.Stands setting decl.body ∧
    decl.body.shape.family = .block ∧ setting.method = some node.id := by
  obtain ⟨setting, body, owner⟩ :=
    stands_in_method inside shape (List.mem_append_right _ List.mem_cons_self)
  exact ⟨setting, body, (layers node inside).family_body shape, owner⟩

/-- All that is below the body of a procedure stands in the procedure. -/
theorem InLayers.stands_in_body (layers : root.InLayers) {below : Node}
    (lies : below ∈ decl.body.descendants) :
    ∃ setting, root.Stands setting below ∧ setting.method = some node.id := by
  obtain ⟨outer, stands, isBlock, owner⟩ := layers.stands_body inside shape
  obtain ⟨setting, stands', same⟩ := stands.below_inner layers (by rw [isBlock]; rfl) lies
  exact ⟨setting, stands', same.trans owner⟩

end Method

theorem stands_of_place {place : Place} (found : place ∈ root.places) :
    root.Stands place.setting place.node := by
  have deeper (top : Node) (around : List Node) {place : Place}
      (stands : root.Stands (Place.mk top around).setting top)
      (found : place ∈ Place.belowUp around top) : root.Stands place.setting place.node := by
    induction top using Node.induction generalizing around with
    | step top ih =>
      rcases Place.mem_belowUp_cases found with rfl | ⟨part, inside, lies⟩
      · exact stands
      · refine ih part inside (top :: around) ?_ lies
        rw [Place.setting_part]
        exact stands.part inside
  exact deeper root [] .root (mem_places_iff.1 found)

theorem mem_of_mem_around {place : Place} {outer : Node} (found : place ∈ root.places)
    (isAround : outer ∈ place.around) : outer ∈ root.descendants := by
  have deeper (top : Node) (around : List Node) (inside : top ∈ root.descendants)
      (known : ∀ outer ∈ around, outer ∈ root.descendants)
      (found : place ∈ Place.belowUp around top) : outer ∈ root.descendants := by
    induction top using Node.induction generalizing around with
    | step top ih =>
      rcases Place.mem_belowUp_cases found with rfl | ⟨part, isPart, lies⟩
      · exact known outer isAround
      · refine ih part isPart (top :: around)
          (mem_descendants_trans (child_mem_descendants isPart) inside) ?_ lies
        exact List.forall_mem_cons.2 ⟨inside, known⟩
  exact deeper root [] root.mem_descendants_self (fun _ absurd => nomatch absurd)
    (mem_places_iff.1 found)

theorem mem_of_method? {place : Place} {method : Node} (found : place ∈ root.places)
    (isMethod : place.method? = some method) : method ∈ root.descendants :=
  mem_of_mem_around found (List.mem_of_find?_eq_some (Option.filter_eq_some_iff.1 isMethod).1)

theorem method?_eq (distinct : root.Distinct) {place other : Place} (found : place ∈ root.places)
    (found' : other ∈ root.places) (same : place.setting.method = other.setting.method) :
    place.method? = other.method? := by
  unfold Place.setting at same
  dsimp only at same
  cases isMethod : place.method? with
  | none =>
    rw [isMethod] at same
    exact (Option.map_eq_none_iff.1 same.symm).symm
  | some method =>
    rw [isMethod] at same
    obtain ⟨method', isMethod', id⟩ := Option.map_eq_some_iff.1 same.symm
    rw [isMethod', distinct.eq_of_id_eq (mem_of_method? found isMethod)
      (mem_of_method? found' isMethod') id.symm]

def Declares (root : Node) (family : Shape.Family) (id method : NodeId) : Prop :=
  ∃ setting node, root.Stands setting node ∧ node.id = id ∧ node.shape.family = family ∧
    setting.method = some method

def HasType (root : Node) (id : NodeId) : Prop :=
  ∃ node ∈ root.descendants, node.id = id ∧ node.shape.family = .type

def HasMember (root : Node) (id : NodeId) : Prop :=
  ∃ setting node, root.Stands setting node ∧ node.id = id ∧ setting.parent = some .type

theorem hasType_of_isType (inside : node ∈ root.descendants) (isType : node.shape.isType) :
    root.HasType node.id := by
  rw [Shape.isType_eq] at isType
  exact ⟨node, inside, rfl, eq_of_beq isType⟩

theorem hasMember_of_type {decl : TypeDecl Node} {member : Node} (inside : node ∈ root.descendants)
    (shape : node.shape = .type decl) (listed : member ∈ decl.members) :
    root.HasMember member.id := by
  obtain ⟨setting, stands⟩ := exists_stands inside
  refine ⟨_, member, stands.part ?_, rfl, ?_⟩
  · rw [children, shape]
    exact listed
  · rw [Node.setting, shape]
    rfl

/-- A relation that goes down from the nodes of one tree to those of another with the same identities.
All parts of a node are carried over unless it is an expression, and what was not carried over was
made. -/
structure Carries (carried : Setting → Node → Node → Prop) (made : Setting → Node → Prop) :
    Prop where
  id : ∀ {setting old new}, carried setting old new → new.id = old.id
  family : ∀ {setting old new}, carried setting old new → new.shape.family = old.shape.family
  kept : ∀ {setting old new}, carried setting old new → old.shape.family ≠ .expression →
    ∀ part ∈ old.children, ∃ part' ∈ new.children, carried (old.setting setting) part part'
  parts : ∀ {setting old new}, carried setting old new → ∀ part' ∈ new.children,
    (∃ part ∈ old.children, carried (old.setting setting) part part') ∨
      made (old.setting setting) part'
  below : ∀ {setting node}, made setting node → ∀ part ∈ node.children,
    made (node.setting setting) part

namespace Carries

variable {carried : Setting → Node → Node → Prop} {made : Setting → Node → Prop} {old new : Node}
  (carries : Carries carried made) (starts : carried .top old new)

include carries starts

/-- What stands in the new tree was carried over or made. -/
theorem origin {node : Node} (stands : new.Stands setting node) :
    (∃ source, old.Stands setting source ∧ carried setting source node) ∨ made setting node := by
  induction stands with
  | root => exact .inl ⟨old, .root, starts⟩
  | part _ inside ih =>
    rcases ih with ⟨source, stands, isCarried⟩ | isMade
    · have same := setting_congr (carries.id isCarried) (carries.family isCarried)
      rcases carries.parts isCarried _ inside with ⟨part, among, also⟩ | isMade
      · rw [same]
        exact .inl ⟨part, stands.part among, also⟩
      · rw [same]
        exact .inr isMade
    · exact .inr (carries.below isMade _ inside)

/-- What stood in the old tree and is no expression stands in the new one. -/
theorem stays (nested : old.Nested) {source : Node} (stands : old.Stands setting source)
    (differs : source.shape.family ≠ .expression) :
    ∃ node, new.Stands setting node ∧ carried setting source node := by
  induction stands with
  | root => exact ⟨new, .root, starts⟩
  | @part setting parent part above inside ih =>
    have outer : parent.shape.family ≠ .expression := by
      intro isExpression
      have held := nested parent above.mem part inside
      rw [isExpression] at held
      exact differs (Shape.Family.eq_expression_of_holds held)
    obtain ⟨node, stands, isCarried⟩ := ih outer
    obtain ⟨part', inside', also⟩ := carries.kept isCarried outer _ inside
    rw [← setting_congr (carries.id isCarried) (carries.family isCarried)]
    refine ⟨part', stands.part inside', ?_⟩
    rwa [setting_congr (carries.id isCarried) (carries.family isCarried)]

theorem nested (before : old.Nested) (fitting : ∀ {setting node}, made setting node →
    ∀ family ∈ setting.parent, family.holds node.shape.family) : new.Nested := by
  intro node inside part isPart
  obtain ⟨setting, stands⟩ := exists_stands inside
  rcases carries.origin starts (stands.part isPart) with ⟨source, above, isCarried⟩ | isMade
  · rw [carries.family isCarried]
    exact above.held before node.shape.family rfl
  · exact fitting isMade node.shape.family rfl

theorem declares (nested : old.Nested) {family : Shape.Family} {id method : NodeId}
    (differs : family ≠ .expression) (known : old.Declares family id method) :
    new.Declares family id method := by
  obtain ⟨setting, source, stands, rfl, rfl, inMethod⟩ := known
  obtain ⟨node, stands', isCarried⟩ := carries.stays starts nested stands differs
  exact ⟨setting, node, stands', carries.id isCarried, carries.family isCarried, inMethod⟩

theorem hasType (nested : old.Nested) {id : NodeId} (known : old.HasType id) : new.HasType id := by
  obtain ⟨source, inside, rfl, isType⟩ := known
  obtain ⟨setting, stands⟩ := exists_stands inside
  obtain ⟨node, stands', isCarried⟩ := carries.stays starts nested stands (by rw [isType]; decide)
  exact ⟨node, stands'.mem, carries.id isCarried, (carries.family isCarried).trans isType⟩

theorem hasMember (nested : old.Nested) {id : NodeId} (known : old.HasMember id) :
    new.HasMember id := by
  obtain ⟨setting, source, stands, rfl, isPart⟩ := known
  have differs : source.shape.family ≠ .expression := by
    intro isExpression
    have held := stands.held nested .type isPart
    rw [isExpression] at held
    exact nomatch held
  obtain ⟨node, stands', isCarried⟩ := carries.stays starts nested stands differs
  exact ⟨setting, node, stands', carries.id isCarried, isPart⟩

end Carries

/-- A map of nodes that keeps what a node is, loses no part but those of expressions, and adds nothing
but leaves. -/
structure Alters (f : Node → Node) (leaves : Node → List Node) : Prop where
  id : ∀ node, (f node).id = node.id
  family : ∀ node, (f node).shape.family = node.shape.family
  kept : ∀ node : Node, node.shape.family ≠ .expression → node.children ⊆ (f node).children
  parts : ∀ node, ∀ part ∈ (f node).children, part ∈ node.children ∨ part ∈ leaves node
  bare : ∀ node, ∀ leaf ∈ leaves node, leaf.children = []

theorem Adds.alters {f : Node → Node} {leaves : Node → List Node} (adds : Adds f leaves) :
    Alters f leaves where
  id := adds.id
  family := adds.family
  kept node _ := by
    rw [adds.children]
    exact List.subset_append_right _ _
  parts node part inside := by
    rw [adds.children] at inside
    exact (List.mem_append.1 inside).symm
  bare := adds.bare

namespace Alters

variable {f : Node → Node} {leaves : Node → List Node}

def Carried (f : Node → Node) (root : Node) (setting : Setting) (old new : Node) : Prop :=
  root.Stands setting old ∧ new = old.mapUp f

def Made (f : Node → Node) (leaves : Node → List Node) (root : Node) (setting : Setting)
    (node : Node) : Prop :=
  ∃ outer old, root.Stands outer old ∧ node ∈ leaves (old.rebuilt f) ∧ setting = old.setting outer

theorem carries (alters : Alters f leaves) (root : Node) :
    Carries (Carried f root) (Made f leaves root) where
  id := by
    rintro setting old new ⟨_, rfl⟩
    rw [mapUp_eq, alters.id, id_rebuilt]
  family := by
    rintro setting old new ⟨_, rfl⟩
    rw [mapUp_eq, alters.family, family_rebuilt]
  kept := by
    rintro setting old new ⟨stands, rfl⟩ differs part inside
    refine ⟨part.mapUp f, ?_, stands.part inside, rfl⟩
    rw [mapUp_eq f old]
    refine alters.kept _ (by rwa [family_rebuilt]) ?_
    rw [children_rebuilt]
    exact List.mem_map.2 ⟨part, inside, rfl⟩
  parts := by
    rintro setting old new ⟨stands, rfl⟩ part' inside
    rw [mapUp_eq] at inside
    rcases alters.parts _ part' inside with among | leaf
    · rw [children_rebuilt] at among
      obtain ⟨part, isPart, rfl⟩ := List.mem_map.1 among
      exact .inl ⟨part, isPart, stands.part isPart, rfl⟩
    · exact .inr ⟨setting, old, stands, leaf, rfl⟩
  below := by
    rintro setting node ⟨outer, old, _, leaf, _⟩ part inside
    rw [alters.bare _ node leaf] at inside
    exact nomatch inside

theorem carried_root (f : Node → Node) (root : Node) : Carried f root .top root (root.mapUp f) :=
  ⟨.root, rfl⟩

end Alters

end Node

end ScriptMigration
