import Mathlib.Data.List.Chain
import Mathlib.Data.List.Nodup
import ScriptMigration.Syntax.Walk

/-! The order in which the places of a tree are visited. In a tree whose identities are distinct,
`placesUp` lists each node after everything that is read at it: its parts, and the subject of the
`With` around a member that names no object. -/
namespace ScriptMigration

namespace Node

def Distinct (root : Node) : Prop := (root.descendants.map Node.id).Nodup

theorem mem_descendants_self (node : Node) : node ∈ node.descendants := by
  rw [descendants_eq]
  exact List.mem_cons_self

theorem mem_descendants_of_child {part below node : Node} (inside : part ∈ node.children)
    (found : below ∈ part.descendants) : below ∈ node.descendants := by
  rw [descendants_eq]
  exact List.mem_cons_of_mem _ (List.mem_flatMap.2 ⟨part, inside, found⟩)

theorem body_mem_children {node : Node} {decl : MethodDecl Node} (shape : node.shape = .method decl) :
    decl.body ∈ node.children := by
  rw [children, shape]
  exact List.mem_append_right _ List.mem_cons_self

theorem child_mem_descendants {part node : Node} (inside : part ∈ node.children) :
    part ∈ node.descendants := mem_descendants_of_child inside (mem_descendants_self part)

theorem mem_descendants_cases {below node : Node} (found : below ∈ node.descendants) :
    below = node ∨ ∃ part ∈ node.children, below ∈ part.descendants := by
  rw [descendants_eq] at found
  rcases List.mem_cons.1 found with same | later
  · exact .inl same
  · exact .inr (List.mem_flatMap.1 later)

theorem forall_of_parts {fine : Node → Prop} {node : Node} (here : fine node)
    (parts : ∀ part ∈ node.children, ∀ below ∈ part.descendants, fine below) :
    ∀ below ∈ node.descendants, fine below := by
  intro below lies
  rcases mem_descendants_cases lies with rfl | ⟨part, isPart, deeper⟩
  · exact here
  · exact parts part isPart below deeper

theorem forall_of_bare {fine : Node → Prop} {node : Node} (bare : node.children = [])
    (here : fine node) : ∀ below ∈ node.descendants, fine below :=
  forall_of_parts here fun part isPart => by
    rw [bare] at isPart
    exact nomatch isPart

theorem mem_descendants_trans {first second third : Node} (inner : first ∈ second.descendants)
    (outer : second ∈ third.descendants) : first ∈ third.descendants := by
  induction third using Node.induction with
  | step third ih =>
    rcases mem_descendants_cases outer with rfl | ⟨part, inside, found⟩
    · exact inner
    · exact mem_descendants_of_child inside (ih part inside found)

theorem mem_children_of_stmts {node stmt : Node} (isStmt : stmt ∈ node.stmts) :
    stmt ∈ node.children := by
  unfold stmts at isStmt
  split at isStmt
  · rename_i shape
    rw [children, shape]
    exact isStmt
  · exact nomatch isStmt

namespace Distinct

variable {root node other : Node}

theorem eq_of_id_eq (distinct : root.Distinct) (first : node ∈ root.descendants)
    (second : other ∈ root.descendants) (same : node.id = other.id) : node = other :=
  List.inj_on_of_nodup_map distinct first second same

theorem child (distinct : root.Distinct) {part : Node} (inside : part ∈ root.children) :
    part.Distinct := by
  unfold Distinct at distinct
  rw [descendants_eq, List.map_cons, List.nodup_cons, List.map_flatMap] at distinct
  exact (List.nodup_flatMap.1 distinct.2).1 part inside

theorem not_mem_child (distinct : root.Distinct) {part : Node} (inside : part ∈ root.children) :
    root.id ∉ part.descendants.map Node.id := by
  intro found
  unfold Distinct at distinct
  rw [descendants_eq, List.map_cons, List.nodup_cons, List.map_flatMap] at distinct
  exact distinct.1 (List.mem_flatMap.2 ⟨part, inside, found⟩)

theorem children_disjoint (distinct : root.Distinct) : root.children.Pairwise fun left right =>
    List.Disjoint (left.descendants.map Node.id) (right.descendants.map Node.id) := by
  unfold Distinct at distinct
  rw [descendants_eq, List.map_cons, List.nodup_cons, List.map_flatMap] at distinct
  exact (List.nodup_flatMap.1 distinct.2).2

end Distinct

end Node

namespace Place

/-- The identities whose notes are read when a place is visited: those of the parts of the node, and
that of the subject that a member without an object belongs to. -/
def reads (place : Place) : List NodeId :=
  place.node.children.map Node.id ++ (place.withSubject?.map Node.id).toList

theorem part_mem_reads {place : Place} {part : Node} (inside : part ∈ place.node.children) :
    part.id ∈ place.reads := List.mem_append_left _ (List.mem_map.2 ⟨part, inside, rfl⟩)

theorem below_eq (around : List Node) (node : Node) :
    below around node = ⟨node, around⟩ :: node.children.flatMap (below (node :: around)) := by
  rw [below, Descent.before_eq, descent_parts, List.flatMap_map]
  rfl

theorem belowUp_eq (around : List Node) (node : Node) :
    belowUp around node = node.children.flatMap (belowUp (node :: around)) ++ [⟨node, around⟩] := by
  rw [belowUp, Descent.after_eq, descent_parts, List.flatMap_map]
  rfl

theorem mem_belowUp_cases {around : List Node} {node : Node} {place : Place}
    (found : place ∈ belowUp around node) :
    place = ⟨node, around⟩ ∨ ∃ part ∈ node.children, place ∈ belowUp (node :: around) part := by
  rw [belowUp_eq] at found
  rcases List.mem_append.1 found with below | here
  · exact .inr (List.mem_flatMap.1 below)
  · exact .inl (List.mem_singleton.1 here)

theorem node_mem_descendants {around : List Node} {node : Node} {place : Place}
    (found : place ∈ belowUp around node) : place.node ∈ node.descendants := by
  induction node using Node.induction generalizing around with
  | step node ih =>
    rcases mem_belowUp_cases found with rfl | ⟨part, inside, below⟩
    · exact node.mem_descendants_self
    · exact Node.mem_descendants_of_child inside (ih part inside below)

theorem exists_mem_belowUp (around : List Node) {below node : Node}
    (found : below ∈ node.descendants) : ∃ place ∈ belowUp around node, place.node = below := by
  induction node using Node.induction generalizing around with
  | step node ih =>
    rw [belowUp_eq]
    rcases Node.mem_descendants_cases found with rfl | ⟨part, inside, deeper⟩
    · exact ⟨⟨below, around⟩, by simp, rfl⟩
    · obtain ⟨place, placed, same⟩ := ih part inside (node :: around) deeper
      exact ⟨place, List.mem_append_left _ (List.mem_flatMap.2 ⟨part, inside, placed⟩), same⟩

/-- What a node takes its subject from lies below the node where the walk began, or is the subject
of that node. -/
theorem withSubject_cases {around : List Node} {node subject : Node} {place : Place}
    (found : place ∈ belowUp around node) (taken : place.withSubject? = some subject) :
    (∃ part ∈ node.children, subject ∈ part.descendants) ∨
      withSubjectFrom node.id around = some subject := by
  induction node using Node.induction generalizing around with
  | step node ih =>
    rcases mem_belowUp_cases found with rfl | ⟨part, inside, below⟩
    · exact .inr taken
    · rcases ih part inside below with ⟨deeper, among, lies⟩ | outer
      · exact .inl ⟨part, inside, Node.mem_descendants_of_child among lies⟩
      · unfold withSubjectFrom at outer
        split at outer
        · rename_i subject' body isWith
          split at outer
          · obtain rfl := Option.some.inj outer
            have among : subject' ∈ node.children := by simp [Node.children, isWith, Shape.children]
            exact .inl ⟨subject', among, subject'.mem_descendants_self⟩
          · exact .inr outer
        · simp at outer
        · simp at outer
        · exact .inr outer

def SubjectOutside (around : List Node) (node : Node) : Prop :=
  ∀ subject, withSubjectFrom node.id around = some subject →
    subject.id ∉ node.descendants.map Node.id

section Order

variable {around : List Node} {node : Node}

private theorem not_mem_child_of_not_mem {part : Node} {id : NodeId} (inside : part ∈ node.children)
    (absent : id ∉ node.descendants.map Node.id) : id ∉ part.descendants.map Node.id := by
  intro found
  obtain ⟨below, lies, same⟩ := List.mem_map.1 found
  exact absent (List.mem_map.2 ⟨below, Node.mem_descendants_of_child inside lies, same⟩)

private theorem with_disjoint {subject body : Node} (distinct : node.Distinct)
    (isWith : node.shape = .withStmt subject body) :
    List.Disjoint (subject.descendants.map Node.id) (body.descendants.map Node.id) := by
  have disjoint := distinct.children_disjoint
  simpa [Node.children, isWith, Shape.children] using disjoint

/-- The subject that a part takes from around it is that of its parent, unless the parent is a
`With` and the part its body. -/
private theorem withSubjectFrom_child {part subject : Node} (distinct : node.Distinct)
    (inside : part ∈ node.children)
    (taken : withSubjectFrom part.id (node :: around) = some subject) :
    (node.shape = .withStmt subject part) ∨ withSubjectFrom node.id around = some subject := by
  unfold withSubjectFrom at taken
  split at taken
  · rename_i subject' body isWith
    split at taken
    · rename_i same
      obtain rfl := Option.some.inj taken
      have among : body ∈ node.children := by simp [Node.children, isWith, Shape.children]
      have isBody : body = part := distinct.eq_of_id_eq (Node.child_mem_descendants among)
        (Node.child_mem_descendants inside) (by simpa using same)
      exact .inl (isBody ▸ isWith)
    · exact .inr taken
  · simp at taken
  · simp at taken
  · exact .inr taken

theorem SubjectOutside.child {part : Node} (outside : SubjectOutside around node)
    (distinct : node.Distinct) (inside : part ∈ node.children) :
    SubjectOutside (node :: around) part := by
  intro subject taken
  rcases withSubjectFrom_child distinct inside taken with isWith | outer
  · intro found
    exact with_disjoint distinct isWith
      (List.mem_map.2 ⟨subject, subject.mem_descendants_self, rfl⟩) found
  · exact not_mem_child_of_not_mem inside (outside subject outer)

private theorem subject_not_later (outside : SubjectOutside around node)
    (distinct : node.Distinct) : node.children.Pairwise fun left right =>
    ∀ subject, withSubjectFrom left.id (node :: around) = some subject →
      subject.id ∉ right.descendants.map Node.id := by
  by_cases isWith : ∃ subject body, node.shape = .withStmt subject body
  · obtain ⟨subject, body, isWith⟩ := isWith
    have parts : node.children = [subject, body] := by simp [Node.children, isWith, Shape.children]
    rw [parts, List.pairwise_pair]
    intro other taken
    have first : subject ∈ node.children := by simp [parts]
    rcases withSubjectFrom_child distinct first taken with isWith' | outer
    · -- The subject of a `With` is not its own body.
      rw [isWith] at isWith'
      obtain ⟨rfl, rfl⟩ := Shape.withStmt.inj isWith'
      have itself := body.mem_descendants_self
      exact absurd (List.mem_map.2 ⟨body, itself, rfl⟩) (with_disjoint distinct isWith
        (List.mem_map.2 ⟨body, itself, rfl⟩))
    · exact not_mem_child_of_not_mem (by simp [parts]) (outside other outer)
  · refine List.pairwise_of_forall_mem_list fun left first right second subject taken => ?_
    rcases withSubjectFrom_child distinct first taken with found | outer
    · exact absurd ⟨_, _, found⟩ isWith
    · exact not_mem_child_of_not_mem second (outside subject outer)

def After (earlier later : Place) : Prop :=
  later.node.id ≠ earlier.node.id ∧ later.node.id ∉ earlier.reads

private theorem mem_ids {below : Node} (found : below ∈ node.descendants) :
    below.id ∈ node.descendants.map Node.id := List.mem_map.2 ⟨below, found, rfl⟩

private theorem mem_reads_cases {place : Place} {id : NodeId} (read : id ∈ place.reads) :
    (∃ part ∈ place.node.children, part.id = id) ∨
      ∃ subject, place.withSubject? = some subject ∧ subject.id = id := by
  rcases List.mem_append.1 read with part | subject
  · exact .inl (List.mem_map.1 part)
  · exact .inr (by simpa using subject)

private theorem after_of_disjoint {left right : Node} {earlier later : Place}
    (disjoint : List.Disjoint (left.descendants.map Node.id) (right.descendants.map Node.id))
    (outside : ∀ subject, withSubjectFrom left.id (node :: around) = some subject →
      subject.id ∉ right.descendants.map Node.id)
    (first : earlier ∈ belowUp (node :: around) left)
    (second : later ∈ belowUp (node :: around) right) : After earlier later := by
  have below := node_mem_descendants first
  have below' := mem_ids (node_mem_descendants second)
  refine ⟨fun same => disjoint (mem_ids below) (same ▸ below'), fun read => ?_⟩
  rcases mem_reads_cases read with ⟨part, inside, same⟩ | ⟨subject, taken, same⟩
  · have lies := Node.mem_descendants_trans (Node.child_mem_descendants inside) below
    exact disjoint (mem_ids lies) (same ▸ below')
  · rcases withSubject_cases first taken with ⟨part, inside, lies⟩ | outer
    · exact disjoint (mem_ids (Node.mem_descendants_of_child inside lies)) (same ▸ below')
    · exact outside subject outer (same ▸ below')

private theorem after_node {part : Node} {place : Place} (distinct : node.Distinct)
    (outside : SubjectOutside around node) (inside : part ∈ node.children)
    (found : place ∈ belowUp (node :: around) part) : After place ⟨node, around⟩ := by
  have below := node_mem_descendants found
  have fresh := distinct.not_mem_child inside
  refine ⟨fun same => fresh (same ▸ mem_ids below), fun read => ?_⟩
  rcases mem_reads_cases read with ⟨deeper, among, same⟩ | ⟨subject, taken, same⟩
  · exact fresh (same ▸ mem_ids (Node.mem_descendants_trans (Node.child_mem_descendants among) below))
  · have here : place ∈ belowUp around node := by
      rw [belowUp_eq]
      exact List.mem_append_left _ (List.mem_flatMap.2 ⟨part, inside, found⟩)
    rcases withSubject_cases here taken with ⟨other, among, lies⟩ | outer
    · exact distinct.not_mem_child among (same ▸ mem_ids lies)
    · exact outside subject outer (same ▸ mem_ids node.mem_descendants_self)

theorem belowUp_pairwise_after (distinct : node.Distinct) (outside : SubjectOutside around node) :
    (belowUp around node).Pairwise After := by
  induction node using Node.induction generalizing around with
  | step node ih =>
    rw [belowUp_eq, List.pairwise_append, List.pairwise_flatMap]
    refine ⟨⟨fun part inside => ih part inside (distinct.child inside)
      (outside.child distinct inside), ?_⟩, List.pairwise_singleton _ _, ?_⟩
    · refine (distinct.children_disjoint.and (subject_not_later outside distinct)).imp ?_
      rintro left right ⟨disjoint, free⟩ earlier first later second
      exact after_of_disjoint disjoint free first second
    · intro place found last isLast
      obtain rfl := List.mem_singleton.1 isLast
      obtain ⟨part, inside, deeper⟩ := List.mem_flatMap.1 found
      exact after_node distinct outside inside deeper

theorem id_not_mem_reads {place : Place} (distinct : node.Distinct)
    (outside : SubjectOutside around node) (found : place ∈ belowUp around node) :
    place.node.id ∉ place.reads := by
  induction node using Node.induction generalizing around with
  | step node ih =>
    rcases mem_belowUp_cases found with rfl | ⟨part, inside, deeper⟩
    · intro read
      rcases mem_reads_cases read with ⟨part, inside, same⟩ | ⟨subject, taken, same⟩
      · exact distinct.not_mem_child inside (same ▸ mem_ids part.mem_descendants_self)
      · exact outside subject taken (same ▸ mem_ids node.mem_descendants_self)
    · exact ih part inside (distinct.child inside) (outside.child distinct inside) deeper

end Order

end Place

namespace Node

variable {root : Node}

theorem placesUp_pairwise_after (distinct : root.Distinct) : root.placesUp.Pairwise Place.After :=
  Place.belowUp_pairwise_after distinct fun _ taken => by simp [Place.withSubjectFrom] at taken

theorem id_not_mem_reads {place : Place} (distinct : root.Distinct) (found : place ∈ root.placesUp) :
    place.node.id ∉ place.reads :=
  Place.id_not_mem_reads distinct (fun _ taken => by simp [Place.withSubjectFrom] at taken) found

theorem node_mem_of_mem_placesUp {place : Place} (found : place ∈ root.placesUp) :
    place.node ∈ root.descendants := Place.node_mem_descendants found

theorem mem_places_iff {place : Place} : place ∈ root.places ↔ place ∈ root.placesUp := by
  have below (node : Node) (around : List Node) :
      place ∈ Place.below around node ↔ place ∈ Place.belowUp around node := by
    induction node using Node.induction generalizing around with
    | step node ih =>
      rw [Place.below_eq, Place.belowUp_eq, List.mem_cons, List.mem_append, List.mem_flatMap,
        List.mem_flatMap, List.mem_singleton, or_comm]
      refine or_congr_left ⟨?_, ?_⟩
      · rintro ⟨part, inside, deeper⟩
        exact ⟨part, inside, (ih part inside _).1 deeper⟩
      · rintro ⟨part, inside, deeper⟩
        exact ⟨part, inside, (ih part inside _).2 deeper⟩
  exact below root []

theorem exists_mem_placesUp {node : Node} (found : node ∈ root.descendants) :
    ∃ place ∈ root.placesUp, place.node = node := Place.exists_mem_belowUp [] found

end Node

namespace Place

theorem mem_belowUp_self (around : List Node) (node : Node) : ⟨node, around⟩ ∈ belowUp around node := by
  rw [belowUp_eq]
  exact List.mem_append_right _ List.mem_cons_self

theorem mem_belowUp_part {around : List Node} {node part : Node} {place : Place}
    (found : place ∈ belowUp around node) (inside : part ∈ place.node.children) :
    ⟨part, place.node :: place.around⟩ ∈ belowUp around node := by
  induction node using Node.induction generalizing around with
  | step node ih =>
    rcases mem_belowUp_cases found with rfl | ⟨other, among, deeper⟩
    · rw [belowUp_eq]
      exact List.mem_append_left _ (List.mem_flatMap.2 ⟨part, inside, mem_belowUp_self _ _⟩)
    · rw [belowUp_eq]
      exact List.mem_append_left _ (List.mem_flatMap.2 ⟨other, among, ih other among deeper⟩)

theorem type?_eq_head? (place : Place) : place.type? = place.types.head? := List.head?_filter.symm

theorem around_mem_placesUp {root node outer : Node} {around : List Node}
    (found : ⟨node, outer :: around⟩ ∈ root.placesUp) : ⟨outer, around⟩ ∈ root.placesUp := by
  have deeper (top : Node) (before : List Node)
      (found : ⟨node, outer :: around⟩ ∈ belowUp before top) (here : ⟨top, before⟩ ∈ root.placesUp) :
      ⟨outer, around⟩ ∈ root.placesUp ∨ before = outer :: around := by
    induction top using Node.induction generalizing before with
    | step top ih =>
      rcases mem_belowUp_cases found with same | ⟨part, inside, below⟩
      · exact .inr (Place.mk.inj same).2.symm
      · rcases ih part inside (top :: before) below (mem_belowUp_part here inside) with
          found | same
        · exact .inl found
        · obtain ⟨rfl, rfl⟩ := List.cons.inj same
          exact .inl here
  exact (deeper root [] found (mem_belowUp_self _ _)).resolve_right nofun

theorem types_isChain {root : Node} {place : Place} (found : place ∈ root.placesUp) :
    place.types.IsChain fun type outer =>
      ∃ other ∈ root.placesUp, other.node = type ∧ other.type? = some outer := by
  obtain ⟨node, around⟩ := place
  induction around generalizing node with
  | nil => exact .nil
  | cons outer around ih =>
    have here := around_mem_placesUp found
    have inner := ih outer here
    unfold types at inner ⊢
    dsimp only at inner ⊢
    rw [List.filter_cons]
    split
    · refine List.isChain_cons.2 ⟨fun next isNext => ⟨_, here, rfl, ?_⟩, inner⟩
      rw [type?_eq_head?]
      exact isNext
    · exact inner

theorem around_suffix {around : List Node} {node : Node} {place : Place}
    (found : place ∈ belowUp around node) : around <:+ place.around := by
  induction node using Node.induction generalizing around with
  | step node ih =>
    rcases mem_belowUp_cases found with rfl | ⟨part, inside, below⟩
    · exact List.suffix_refl _
    · exact (List.suffix_cons node around).trans (ih part inside below)

theorem type?_isSome {root : Node} {place : Place} (found : place ∈ root.placesUp)
    (isType : root.shape.isType) (differs : ¬place.node.shape.isType) : place.type?.isSome := by
  rcases mem_belowUp_cases found with rfl | ⟨part, inside, below⟩
  · exact absurd isType differs
  · refine List.find?_isSome.2 ⟨root, ?_, isType⟩
    exact (around_suffix below).subset List.mem_cons_self

end Place

end ScriptMigration
