import ScriptMigration.Proofs.Syntax.Tree
import ScriptMigration.Proofs.Syntax.Walks
import ScriptMigration.Resolution.Typing

/-! The object of a member that names none. `Governs` says by the tree alone which `With` statements
a place is inside of, and the walk up from the place finds the innermost of them. What happens at one
node on the way up is said once for the walk and once for `Governs`. -/
namespace ScriptMigration

/-- A `With` statement with the given subject has the place inside its body. Both are in the same
procedure of the same type. -/
structure Place.Governs (root subject : Node) (outer place : Place) : Prop where
  listed : outer ∈ root.places
  body : ∃ body, outer.node.shape = .withStmt subject body ∧ body.Contains place.node
  method : outer.method? = place.method?
  type : outer.type? = place.type?

namespace Node

theorem WellFormed.parent_unique {root part first second : Node} (wellFormed : root.WellFormed)
    (inside : root.Contains first) (inside' : root.Contains second) (isPart : part ∈ first.children)
    (isPart' : part ∈ second.children) : first = second :=
  wellFormed.distinct.parent_unique (mem_descendants_iff.2 inside) (mem_descendants_iff.2 inside')
    (List.mem_map.2 ⟨part, isPart, rfl⟩) (List.mem_map.2 ⟨part, isPart', rfl⟩)

theorem WellFormed.contains_parent {root outer node parent : Node} (wellFormed : root.WellFormed)
    (inside : root.Contains outer) (lies : outer.ContainsBelow node) (inTree : root.Contains parent)
    (isPart : node ∈ parent.children) : outer.Contains parent := by
  induction outer using Node.induction with
  | step outer ih =>
    obtain ⟨part, among, lies⟩ := containsBelow_iff.1 lies
    rcases contains_cases lies with rfl | deeper
    · exact wellFormed.parent_unique inside inTree among isPart ▸ .self outer
    · have inOuter := ContainsBelow.of_part among
      exact inOuter.contains.trans (ih part among (inside.trans inOuter.contains) deeper)

end Node

namespace Place

variable {root node parent subject body : Node} {around : List Node} {place outer : Place}

theorem mem_children_of_with (isWith : parent.shape = .withStmt subject body) :
    subject ∈ parent.children ∧ body ∈ parent.children := by
  rw [Node.children, isWith]
  exact ⟨List.mem_cons_self, List.mem_cons_of_mem _ List.mem_cons_self⟩

section Walk

theorem withSubject?_of_body (isWith : parent.shape = .withStmt subject body)
    (isBody : body.id = node.id) : withSubject? ⟨node, parent :: around⟩ = some subject := by
  unfold withSubject? withSubjectFrom
  rw [isWith]
  simp [isBody]

theorem withSubject?_of_bound (bound : parent.shape.isMethod || parent.shape.isType) :
    withSubject? ⟨node, parent :: around⟩ = none := by
  unfold withSubject? withSubjectFrom
  cases shape : parent.shape <;> rw [shape] at bound <;> first | rfl | cases bound

theorem withSubject?_of_outer (inside : (parent.shape.isMethod || parent.shape.isType) = false)
    (notBody : ∀ subject body, parent.shape = .withStmt subject body → body.id ≠ node.id) :
    withSubject? ⟨node, parent :: around⟩ = withSubject? ⟨parent, around⟩ := by
  unfold withSubject?
  dsimp only
  rw [withSubjectFrom]
  split
  · rename_i subject body isWith
    rw [if_neg (by simpa using notBody subject body isWith)]
  · rename_i shape
    rw [shape] at inside
    cases inside
  · rename_i shape
    rw [shape] at inside
    cases inside
  · rfl

end Walk

section Around

variable (inside : (parent.shape.isMethod || parent.shape.isType) = false)

include inside

theorem method?_of_outer : method? ⟨node, parent :: around⟩ = method? ⟨parent, around⟩ := by
  rw [method?, List.find?_cons_of_neg (by rw [inside]; decide), method?]

theorem type?_of_outer : type? ⟨node, parent :: around⟩ = type? ⟨parent, around⟩ := by
  rw [Bool.or_eq_false_iff] at inside
  rw [type?, List.find?_cons_of_neg (by rw [inside.2]; decide), type?]

end Around

theorem mem_around_of_method? {method : Node} (inMethod : place.method? = some method) :
    method ∈ place.around :=
  List.mem_of_find?_eq_some (Option.filter_eq_some_iff.1 inMethod).1

theorem mem_around_of_type? {type : Node} (inType : place.type? = some type) : type ∈ place.around :=
  List.mem_of_find?_eq_some inType

theorem contains_node (placed : place ∈ root.places) : root.Contains place.node :=
  Node.mem_descendants_iff.1 (Node.node_mem_of_mem_placesUp (Node.mem_places_iff.1 placed))

theorem contains_of_around (placed : place ∈ root.places) (isAround : node ∈ place.around) :
    root.Contains node ∧ node.Contains place.node :=
  (mem_of_around (Node.mem_places_iff.1 placed) isAround).imp Node.mem_descendants_iff.1
    Node.mem_descendants_iff.1

theorem eq_root (placed : ⟨node, []⟩ ∈ root.places) : node = root := by
  rcases exists_parent (Node.mem_places_iff.1 placed) with same | ⟨_, _, absurd, _⟩
  · exact (Place.mk.inj same).1
  · cases absurd

theorem mem_children_of_around (placed : ⟨node, parent :: around⟩ ∈ root.places) :
    node ∈ parent.children := by
  rcases exists_parent (Node.mem_places_iff.1 placed) with same | ⟨other, -, known, isPart⟩
  · cases (Place.mk.inj same).2
  · obtain rfl := Option.some.inj known
    exact isPart

theorem eq_of_node_eq (wellFormed : root.WellFormed) (placed : place ∈ root.places)
    (placed' : outer ∈ root.places) (same : place.node = outer.node) : place = outer :=
  wellFormed.distinct.place_unique (Node.mem_places_iff.1 placed) (Node.mem_places_iff.1 placed')
    (congrArg Node.id same)

theorem eq_of_part (wellFormed : root.WellFormed) (placed : place ∈ root.places)
    (placed' : outer ∈ root.places) {part : Node} (isPart : part ∈ place.node.children)
    (isPart' : part ∈ outer.node.children) : place = outer :=
  eq_of_node_eq wellFormed placed placed' (wellFormed.parent_unique (contains_node placed)
    (contains_node placed') isPart isPart')

theorem up_mem_places (placed : ⟨node, parent :: around⟩ ∈ root.places) :
    ⟨parent, around⟩ ∈ root.places :=
  Node.mem_places_iff.2 (around_mem_placesUp (Node.mem_places_iff.1 placed))

namespace Governs

theorem containsBelow (governs : Governs root subject outer place) :
    outer.node.ContainsBelow place.node := by
  obtain ⟨body, isWith, lies⟩ := governs.body
  exact Node.containsBelow_iff.2 ⟨body, (mem_children_of_with isWith).2, lies⟩

theorem not_root (wellFormed : root.WellFormed) (placed : ⟨node, []⟩ ∈ root.places) :
    ¬ Governs root subject outer ⟨node, []⟩ := by
  intro governs
  obtain rfl := eq_root placed
  exact wellFormed.not_containsBelow (contains_node governs.listed) governs.containsBelow
    (contains_node governs.listed)

/-- Nothing is governed from outside of the procedure or the type that is directly around it. -/
theorem inside (wellFormed : root.WellFormed) (placed : ⟨node, parent :: around⟩ ∈ root.places)
    (governs : Governs root subject outer ⟨node, parent :: around⟩) (lies : outer.node ≠ parent) :
    (parent.shape.isMethod || parent.shape.isType) = false := by
  have inTree := contains_node (up_mem_places placed)
  have below : outer.node.ContainsBelow parent := by
    have inOuter := wellFormed.contains_parent (contains_node governs.listed) governs.containsBelow
      inTree (mem_children_of_around placed)
    exact (Node.contains_cases inOuter).resolve_left lies.symm
  -- the statement would be in the procedure, or the type, that is below it
  have apart (isAround : parent ∈ outer.around) : False :=
    wellFormed.not_containsBelow (contains_node governs.listed) below
      (contains_of_around governs.listed isAround).2
  rw [Bool.or_eq_false_iff]
  constructor
  · refine Bool.eq_false_iff.2 fun isMethod => apart (mem_around_of_method? (governs.method.trans ?_))
    rw [method?, List.find?_cons_of_pos (by rw [isMethod]; rfl)]
    exact Option.filter_some_pos isMethod
  · refine Bool.eq_false_iff.2 fun isType => apart (mem_around_of_type? (governs.type.trans ?_))
    exact List.find?_cons_of_pos isType

/-- One step up: a place is governed by the statement whose body it is, and by what governs the node
around it, unless that is a procedure or a type. -/
theorem up_iff (wellFormed : root.WellFormed) (placed : ⟨node, parent :: around⟩ ∈ root.places) :
    Governs root subject outer ⟨node, parent :: around⟩ ↔
      (outer = ⟨parent, around⟩ ∧ ∃ body, parent.shape = .withStmt subject body ∧ body.id = node.id) ∨
      ((parent.shape.isMethod || parent.shape.isType) = false ∧
        Governs root subject outer ⟨parent, around⟩) := by
  have isPart := mem_children_of_around placed
  have above := up_mem_places placed
  constructor
  · intro governs
    obtain ⟨body, isWith, lies⟩ := governs.body
    have isBody := (mem_children_of_with isWith).2
    have inTree := (contains_node governs.listed).trans
      (Node.ContainsBelow.of_part isBody).contains
    rcases Node.contains_cases lies with rfl | deeper
    · obtain rfl := eq_of_part wellFormed governs.listed above isBody isPart
      exact .inl ⟨rfl, _, isWith, rfl⟩
    · have holds := wellFormed.contains_parent inTree deeper (contains_node above) isPart
      have differs : outer.node ≠ parent := by
        rintro rfl
        exact wellFormed.not_containsBelow (contains_node governs.listed)
          (.of_part isBody) holds
      have inside := governs.inside wellFormed placed differs
      exact .inr ⟨inside, governs.listed, ⟨body, isWith, holds⟩,
        governs.method.trans (method?_of_outer inside), governs.type.trans (type?_of_outer inside)⟩
  · rintro (⟨rfl, body, isWith, same⟩ | ⟨inside, governs⟩)
    · have inside : (parent.shape.isMethod || parent.shape.isType) = false := by
        rw [isWith]
        rfl
      have inTree {part : Node} (isPart : part ∈ parent.children) : part ∈ root.descendants :=
        Node.mem_descendants_iff.2 ((contains_node above).trans
          (Node.ContainsBelow.of_part isPart).contains)
      obtain rfl := wellFormed.distinct.eq_of_id_eq
        (inTree (mem_children_of_with isWith).2) (inTree isPart) same
      exact ⟨above, ⟨body, isWith, .self body⟩, (method?_of_outer inside).symm,
        (type?_of_outer inside).symm⟩
    · obtain ⟨body, isWith, lies⟩ := governs.body
      refine ⟨governs.listed, ⟨body, isWith, lies.trans ?_⟩,
        governs.method.trans (method?_of_outer inside).symm,
        governs.type.trans (type?_of_outer inside).symm⟩
      exact (Node.ContainsBelow.of_part isPart).contains

end Governs

def Innermost (root subject : Node) (outer place : Place) : Prop :=
  Governs root subject outer place ∧
    ∀ other farther, Governs root other farther place → farther.node.Contains outer.node

theorem withSubject?_spec (wellFormed : root.WellFormed) (placed : place ∈ root.places) :
    (∀ subject, place.withSubject? = some subject → ∃ outer, Innermost root subject outer place) ∧
      (place.withSubject? = none → ∀ subject outer, ¬ Governs root subject outer place) := by
  obtain ⟨node, around⟩ := place
  induction around generalizing node with
  | nil =>
    refine ⟨fun subject found => ?_, fun _ subject outer => Governs.not_root wellFormed placed⟩
    cases found
  | cons parent around ih =>
    obtain ⟨found, free⟩ := ih parent (up_mem_places placed)
    by_cases isBody : ∃ subject body, parent.shape = .withStmt subject body ∧ body.id = node.id
    · obtain ⟨subject, body, isWith, same⟩ := isBody
      rw [withSubject?_of_body isWith same]
      refine ⟨fun subject' isSubject => ?_, fun absurd => by cases absurd⟩
      obtain rfl := Option.some.inj isSubject
      refine ⟨⟨parent, around⟩, (Governs.up_iff wellFormed placed).2 (.inl ⟨rfl, body, isWith, same⟩),
        fun other farther governs => ?_⟩
      rcases (Governs.up_iff wellFormed placed).1 governs with ⟨rfl, _⟩ | ⟨_, governs⟩
      · exact .self _
      · exact governs.containsBelow.contains
    · have notBody : ∀ subject body, parent.shape = .withStmt subject body → body.id ≠ node.id :=
        fun subject body isWith same => isBody ⟨subject, body, isWith, same⟩
      have onward {other : Node} {farther : Place}
          (governs : Governs root other farther ⟨node, parent :: around⟩) :
          (parent.shape.isMethod || parent.shape.isType) = false ∧
            Governs root other farther ⟨parent, around⟩ := by
        refine ((Governs.up_iff wellFormed placed).1 governs).resolve_left ?_
        rintro ⟨_, body, isWith, same⟩
        exact isBody ⟨other, body, isWith, same⟩
      cases inside : parent.shape.isMethod || parent.shape.isType with
      | true =>
        rw [withSubject?_of_bound inside]
        refine ⟨fun subject absurd => (by cases absurd), fun _ subject outer governs => ?_⟩
        rw [(onward governs).1] at inside
        cases inside
      | false =>
        rw [withSubject?_of_outer inside notBody]
        refine ⟨fun subject isSubject => ?_, fun nothing subject outer governs =>
          free nothing subject outer (onward governs).2⟩
        obtain ⟨outer, governs, nearest⟩ := found subject isSubject
        exact ⟨outer, (Governs.up_iff wellFormed placed).2 (.inr ⟨inside, governs⟩),
          fun other farther governs => nearest other farther (onward governs).2⟩

theorem Innermost.unique {subject' : Node} {outer' : Place} (wellFormed : root.WellFormed)
    (innermost : Innermost root subject outer place)
    (innermost' : Innermost root subject' outer' place) : subject = subject' := by
  obtain ⟨governs, nearest⟩ := innermost
  obtain ⟨governs', nearest'⟩ := innermost'
  have same := wellFormed.antisymm (contains_node governs.listed) (nearest' _ _ governs)
    (nearest _ _ governs')
  obtain ⟨body, isWith, -⟩ := governs.body
  obtain ⟨body', isWith', -⟩ := governs'.body
  rw [same, isWith'] at isWith
  exact (Shape.withStmt.inj isWith).1.symm

/-- Inside the subject of a `With` statement, which is an expression, the walk up comes to the
statement and goes on as it does from there. -/
theorem withSubject?_of_subject (wellFormed : root.WellFormed) (placed : place ∈ root.places)
    (listed : outer ∈ root.places) (isWith : outer.node.shape = .withStmt subject body)
    (lies : subject.Contains place.node)
    (plain : ∀ below, subject.Contains below → below.shape.isExpression) :
    place.withSubject? = outer.withSubject? := by
  have isSubject := (mem_children_of_with isWith).1
  have inTree := (contains_node listed).trans (Node.ContainsBelow.of_part isSubject).contains
  obtain ⟨node, around⟩ := place
  induction around generalizing node with
  | nil =>
    obtain rfl := eq_root placed
    exact (wellFormed.not_containsBelow (contains_node listed)
      (Node.containsBelow_iff.2 ⟨subject, isSubject, lies⟩) (contains_node listed)).elim
  | cons parent around ih =>
    have above := up_mem_places placed
    have isPart := mem_children_of_around placed
    rcases Node.contains_cases lies with rfl | deeper
    · obtain rfl := eq_of_part wellFormed listed above isSubject isPart
      refine withSubject?_of_outer (by rw [isWith]; rfl) fun subject' body' isWith' same => ?_
      obtain ⟨rfl, rfl⟩ := Shape.withStmt.inj (isWith.symm.trans isWith')
      -- the subject and the body are two parts
      have once := wellFormed.distinct.children_nodup (Node.mem_descendants_iff.2 (contains_node listed))
      rw [Node.children, isWith] at once
      simp [Shape.children, same] at once
    · have holds := wellFormed.contains_parent inTree deeper (contains_node above) isPart
      have expression := plain parent holds
      have inside : (parent.shape.isMethod || parent.shape.isType) = false := by
        cases shape : parent.shape <;> rw [shape] at expression <;> first | rfl | cases expression
      have notBody : ∀ subject body, parent.shape = .withStmt subject body → body.id ≠ node.id := by
        intro _ _ isWith
        rw [isWith] at expression
        cases expression
      rw [withSubject?_of_outer inside notBody]
      exact ih parent above holds

end Place

/-- The subject of a place is that of the innermost `With` statement whose body it is in and that is
in the same procedure. Inside the subject of a `With` statement it is that of the place of the
statement. A member that names no object is typed as one of the subject. -/
theorem Place.subject_innermost {root : Node} {place : Place} (wellFormed : root.WellFormed)
    (placed : place ∈ root.places) :
    (∀ subject, place.withSubject? = some subject ↔ ∃ outer, Innermost root subject outer place) ∧
    (place.withSubject? = none ↔ ∀ subject outer, ¬ Governs root subject outer place) ∧
    (∀ outer ∈ root.places, ∀ subject body, outer.node.shape = .withStmt subject body →
      subject.Contains place.node → (∀ below, subject.Contains below → below.shape.isExpression) →
        place.withSubject? = outer.withSubject?) ∧
    (∀ name, place.node.shape = .member none name → ∀ (around : Surroundings) final notes bodies cache,
      around.typed final notes bodies cache place = around.typed final notes bodies cache
        ⟨place.node.withShape (.member place.withSubject? name), place.around⟩) := by
  obtain ⟨found, free⟩ := withSubject?_spec wellFormed placed
  refine ⟨fun subject => ⟨found subject, ?_⟩, ⟨free, fun none => ?_⟩, ?_, ?_⟩
  · rintro ⟨outer, innermost⟩
    cases taken : place.withSubject? with
    | none => exact absurd innermost.1 (free taken subject outer)
    | some other =>
      obtain ⟨outer', innermost'⟩ := found other taken
      rw [innermost'.unique wellFormed innermost]
  · refine Option.eq_none_iff_forall_ne_some.2 fun subject taken => ?_
    obtain ⟨outer, innermost⟩ := found subject taken
    exact none subject outer innermost.1
  · intro outer listed subject body isWith lies plain
    exact withSubject?_of_subject wellFormed placed listed isWith lies plain
  · intro name isMember around final notes bodies cache
    have same : Place.withSubject? ⟨.mk place.node.info (.member place.withSubject? name),
        place.around⟩ = place.withSubject? := rfl
    unfold Surroundings.typed
    rw [isMember]
    simp only [Node.withShape, Node.shape, same, Option.none_or, Option.or_self]

/-- A procedure with a `With` statement inside another. The subject of the inner one is a member of
the subject of the outer one, and a member of that is used. -/
def nestedWiths : Node :=
  let node (index : Nat) (shape : Shape Node) : Node := .mk ⟨⟨index⟩, 1, 1, []⟩ shape
  let inner := node 5 (.withStmt (node 6 (.member none "b"))
    (node 7 (.block [node 8 (.exprStmt (node 9 (.member none "c")))])))
  let outer := node 2 (.withStmt (node 3 (.name "a")) (node 4 (.block [inner])))
  node 0 (.method { name := "Run", kind := .sub, body := node 1 (.block [outer]) })

/-- The subject of the inner statement belongs to the outer one, and not to itself. -/
theorem Place.subject_innermost_nested : nestedWiths.WellFormed ∧
    ∃ subject ∈ nestedWiths.places, ∃ used ∈ nestedWiths.places,
      subject.node.shape = .member none "b" ∧ used.node.shape = .member none "c" ∧
      (∃ object outer, object.shape = .name "a" ∧ Innermost nestedWiths object outer subject) ∧
      ∃ inner, Innermost nestedWiths subject.node inner used := by
  have wellFormed : nestedWiths.WellFormed := Node.Distinct.wellFormed (by
    simp [Node.Distinct, nestedWiths, Node.descendants_eq, Node.children, Node.shape, Node.id,
      Node.info, Shape.children])
  have top : ⟨nestedWiths, []⟩ ∈ nestedWiths.places := Node.mem_places_iff.2 (mem_belowUp_self _ _)
  have down {place : Place} {part : Node} (placed : place ∈ nestedWiths.places)
      (isPart : part ∈ place.node.children) : ⟨part, place.node :: place.around⟩ ∈ nestedWiths.places :=
    Node.mem_places_iff.2 (mem_belowUp_part (Node.mem_places_iff.1 placed) isPart)
  have outer := down (down top (.head _)) (.head _)
  have inner := down (down outer (.tail _ (.head _))) (.head _)
  have subject := down inner (.head _)
  have used := down (down (down inner (.tail _ (.head _))) (.head _)) (.head _)
  refine ⟨wellFormed, _, subject, _, used, rfl, rfl, ?_, ?_⟩
  · obtain ⟨place, innermost⟩ := ((subject_innermost wellFormed subject).1 _).1 rfl
    exact ⟨_, place, rfl, innermost⟩
  · exact ((subject_innermost wellFormed used).1 _).1 rfl

end ScriptMigration
