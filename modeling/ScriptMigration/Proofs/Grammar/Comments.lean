import ScriptMigration.Proofs.Grammar.Shaping
import ScriptMigration.Proofs.Grammar.Termination
import ScriptMigration.Proofs.Syntax.TypePasses
import ScriptMigration.Proofs.Token.Opening

/-! Where the comments of a text are found in its tree. Each is at one declaration and they keep their
order; one that stands among the lines of a field or a procedure is at such a member. -/
namespace ScriptMigration

namespace Shape

variable {α β : Type}

def isPlain : Shape α → Bool
  | .field _ | .method _ | .property _ => true
  | _ => false

theorem isMember_eq (shape : Shape α) : shape.isMember = (shape.isType || shape.isPlain) := by
  cases shape <;> rfl

theorem isMember_mapParts (shape : Shape α) (f : (part : α) → part ∈ shape.children → β) :
    (shape.mapParts f).isMember = shape.isMember := by
  cases shape with
  | loop test body => cases test <;> rfl
  | _ => rfl

theorem isType_of_isPlain {shape : Shape α} (plain : shape.isPlain) : shape.isType = false := by
  cases shape <;> first | rfl | exact nomatch plain

theorem family_of_isPlain {shape : Shape α} (plain : shape.isPlain) :
    shape.family = .field ∨ shape.family = .method ∨ shape.family = .property := by
  cases shape <;> simp_all [isPlain, family]

theorem Family.declares_of_holds {outer family : Family} (holds : outer.holds family)
    (plain : family = .field ∨ family = .method ∨ family = .property) :
    outer = .type ∨ outer = .property ∧ family = .method := by
  rcases plain with rfl | rfl | rfl <;> cases outer <;> revert holds <;> decide

theorem isPlain_mapParts (shape : Shape α) (f : (part : α) → part ∈ shape.children → β) :
    (shape.mapParts f).isPlain = shape.isPlain := by
  cases shape with
  | loop test body => cases test <;> rfl
  | _ => rfl

end Shape

namespace Attachment

variable {root node : Node} {places : List Place} {line : Nat}

theorem mem_of_firstLeast {α : Type} {key : α → Nat} {listed : List α} {best : α}
    (found : firstLeast key listed = some best) : best ∈ listed := by
  induction listed generalizing best with
  | nil => exact nomatch found
  | cons first rest ih =>
    unfold firstLeast at found
    cases later : firstLeast key rest with
    | none =>
      rw [later] at found
      obtain rfl := Option.some.inj found
      exact List.mem_cons_self
    | some other =>
      rw [later] at found
      dsimp only at found
      split at found
      · obtain rfl := Option.some.inj found
        exact List.mem_cons_of_mem _ (ih later)
      · obtain rfl := Option.some.inj found
        exact List.mem_cons_self

theorem eq_nil_of_firstLeast {α : Type} {key : α → Nat} {listed : List α}
    (none : firstLeast key listed = none) : listed = [] := by
  cases listed with
  | nil => rfl
  | cons first rest =>
    unfold firstLeast at none
    split at none
    · exact nomatch none
    · split at none <;> exact nomatch none

theorem firstLeast_le {α : Type} {key : α → Nat} {listed : List α} {best : α}
    (found : firstLeast key listed = some best) : ∀ other ∈ listed, key best ≤ key other := by
  induction listed generalizing best with
  | nil => exact nomatch found
  | cons first rest ih =>
    unfold firstLeast at found
    cases later : firstLeast key rest with
    | none =>
      rw [later] at found
      obtain rfl := Option.some.inj found
      rw [eq_nil_of_firstLeast later]
      exact List.forall_mem_singleton.2 le_rfl
    | some least =>
      rw [later] at found
      dsimp only at found
      have both : key best ≤ key first ∧ key best ≤ key least := by
        split at found <;> obtain rfl := Option.some.inj found <;> omega
      exact List.forall_mem_cons.2 ⟨both.1, fun other among => both.2.trans (ih later other among)⟩

theorem mem_of_smallest (found : smallest places line = some node) :
    holds node line ∧ ∃ place ∈ places, place.node = node := by
  obtain ⟨place, least, rfl⟩ := Option.map_eq_some_iff.1 found
  obtain ⟨inside, has⟩ := List.mem_filter.1 (mem_of_firstLeast least)
  exact ⟨has, place, inside, rfl⟩

theorem smallest_le (found : smallest places line = some node) : ∀ place ∈ places,
    holds place.node line → lastLine node - node.line ≤ lastLine place.node - place.node.line := by
  obtain ⟨best, least, rfl⟩ := Option.map_eq_some_iff.1 found
  exact fun place listed has => firstLeast_le least place (List.mem_filter.2 ⟨listed, has⟩)

theorem not_holds_of_smallest (none : smallest places line = none) :
    ∀ place ∈ places, holds place.node line = false := by
  have nothing := eq_nil_of_firstLeast (Option.map_eq_none_iff.1 none)
  simpa using List.filter_eq_nil_iff.1 nothing

/-- A comment goes to a member that is no type and holds its line. If there is none it goes to some
member or to the root. -/
theorem owner_cases (root : Node) (members : List Place) (line : Nat) :
    (∃ place ∈ members, place.node.id = owner root members line ∧
      place.node.shape.isType = false ∧ holds place.node line) ∨
    ((∀ place ∈ members, place.node.shape.isType = false → holds place.node line = false) ∧
      (root.id = owner root members line ∨
        ∃ place ∈ members, place.node.id = owner root members line)) := by
  unfold owner
  rw [List.partition_eq_filter_filter]
  dsimp only
  split
  · rename_i node inner
    obtain ⟨has, place, listed, rfl⟩ := mem_of_smallest inner
    obtain ⟨inside, noType⟩ := List.mem_filter.1 listed
    exact .inl ⟨place, inside, rfl, by simpa using noType, has⟩
  · rename_i inner
    refine .inr ⟨fun place inside noType => ?_, ?_⟩
    · exact not_holds_of_smallest inner place (List.mem_filter.2 ⟨inside, by simp [noType]⟩)
    split
    · rename_i place next
      exact .inr ⟨place, List.mem_of_mem_filter (mem_of_firstLeast next), rfl⟩
    · cases outer : smallest (members.filter (·.node.shape.isType)) line with
      | none => exact .inl rfl
      | some type =>
        obtain ⟨-, place, listed, rfl⟩ := mem_of_smallest outer
        exact .inr ⟨place, List.mem_of_mem_filter listed, rfl⟩

theorem exists_declaration (inside : node ∈ root.descendants) (isMember : node.shape.isMember)
    (differs : node ≠ root) : ∃ place ∈ declarations root, place.node = node := by
  obtain ⟨place, found, rfl⟩ := Node.exists_mem_placesUp inside
  have listed := Node.mem_places_iff.2 found
  rw [Node.places, Place.below_eq] at listed
  rcases List.mem_cons.1 listed with rfl | later
  · exact absurd rfl differs
  · refine ⟨place, List.mem_filter.2 ⟨?_, isMember⟩, rfl⟩
    rwa [Node.places, Place.below_eq]

theorem mem_declarations (isType : root.shape.isType) (inside : node ∈ root.descendants)
    (plain : node.shape.isPlain) : ∃ place ∈ declarations root, place.node = node := by
  refine exists_declaration inside (by simp [Shape.isMember_eq, plain]) ?_
  rintro rfl
  simp [Shape.isType_of_isPlain plain] at isType

theorem mem_of_declarations {place : Place} (listed : place ∈ declarations root) :
    place.node ∈ root.descendants ∧ place.node.shape.isMember := by
  obtain ⟨later, isMember⟩ := List.mem_filter.1 listed
  exact ⟨Node.node_mem_of_mem_placesUp (Node.mem_places_iff.1 (List.mem_of_mem_drop later)), isMember⟩

theorem ne_root_of_declarations (distinct : root.Distinct) {place : Place}
    (listed : place ∈ declarations root) : place.node ≠ root := by
  have later := List.mem_map_of_mem (f := Place.node) (List.mem_filter.1 listed).1
  rw [List.map_drop, Node.places, Place.map_node_below, Node.descendants_eq] at later
  rintro same
  have once := List.Nodup.of_map _ distinct
  rw [Node.descendants_eq] at once
  exact (List.nodup_cons.1 once).1 (same ▸ later)

/-- The owner of a comment is a declaration of the tree. It holds the line of the comment if there is a
member other than a type that does. -/
theorem exists_owner (isType : root.shape.isType) (line : Nat) : ∃ node ∈ root.descendants,
    node.id = owner root (declarations root) line ∧ node.shape.isMember ∧
      ((∃ holder ∈ root.descendants, holder.shape.isPlain ∧ holds holder line) →
        node.shape.isPlain ∧ holds node line) := by
  rcases owner_cases root (declarations root) line with
    ⟨place, listed, same, noType, has⟩ | ⟨none, other⟩
  · obtain ⟨inside, isMember⟩ := mem_of_declarations listed
    have plain : place.node.shape.isPlain := by simpa [Shape.isMember_eq, noType] using isMember
    exact ⟨place.node, inside, same, isMember, fun _ => ⟨plain, has⟩⟩
  · have outside : ¬ ∃ holder ∈ root.descendants, holder.shape.isPlain ∧ holds holder line := by
      rintro ⟨holder, inside, plain, has⟩
      obtain ⟨place, listed, rfl⟩ := mem_declarations isType inside plain
      simp [none place listed (Shape.isType_of_isPlain plain)] at has
    rcases other with same | ⟨place, listed, same⟩
    · have isMember : root.shape.isMember := by simp [Shape.isMember_eq, isType]
      exact ⟨root, root.mem_descendants_self, same, isMember, fun holder => absurd holder outside⟩
    · obtain ⟨inside, isMember⟩ := mem_of_declarations listed
      exact ⟨place.node, inside, same, isMember, fun holder => absurd holder outside⟩

theorem flatMap_filter_perm {α β : Type} [BEq β] [LawfulBEq β] {keys : List β} {listed : List α}
    (key : α → β) (once : keys.Nodup) (known : ∀ item ∈ listed, key item ∈ keys) :
    (keys.flatMap fun one => listed.filter (key · == one)).Perm listed := by
  induction keys generalizing listed with
  | nil =>
    have none : listed = [] := List.eq_nil_iff_forall_not_mem.2 fun item inside =>
      nomatch known item inside
    rw [none]
    exact .nil
  | cons first rest ih =>
    obtain ⟨absent, once⟩ := List.nodup_cons.1 once
    let others := listed.filter fun item => !(key item == first)
    have later : (rest.flatMap fun one => listed.filter (key · == one)) =
        rest.flatMap fun one => others.filter (key · == one) := by
      apply List.flatMap_congr
      intro one inside
      rw [List.filter_filter]
      apply List.filter_congr
      intro item _
      by_cases same : key item = one
      · subst same
        have differs : key item ≠ first := fun isFirst => absent (isFirst ▸ inside)
        simp [differs]
      · simp [same]
    have known' : ∀ item ∈ others, key item ∈ rest := by
      intro item inside
      obtain ⟨among, differs⟩ := List.mem_filter.1 inside
      rcases List.mem_cons.1 (known item among) with same | later
      · simp [same] at differs
      · exact later
    rw [List.flatMap_cons, later]
    exact ((ih once known').append_left _).trans (List.filter_append_perm _ _)

theorem mem_owned_iff {comments : List Comment} {comment : Comment} {id : NodeId} :
    comment ∈ owned root comments id ↔
      comment ∈ comments ∧ owner root (declarations root) comment.line = id := by
  simp [owned]

/-! ### The nodes with their comments -/

section WithComments

variable (attached : NodeId → List Comment)

theorem withComments_eq (node : Node) : (withComments attached node).info =
    { node.info with comments := node.info.comments ++ attached node.id } := by
  rw [withComments, Node.mapUp_eq]
  rfl

theorem descendants_withComments (root : Node) :
    (withComments attached root).descendants = root.descendants.map (withComments attached) := by
  apply Node.descendants_mapUp
  exact fun _ => rfl

theorem isType_withComments (node : Node) :
    (withComments attached node).shape.isType = node.shape.isType := by
  rw [Shape.isType_eq, Shape.isType_eq]
  congr 1
  apply Node.read_mapUp Shape.family_mapParts
  exact fun _ => rfl

theorem isMember_withComments (node : Node) :
    (withComments attached node).shape.isMember = node.shape.isMember := by
  apply Node.read_mapUp Shape.isMember_mapParts
  exact fun _ => rfl

theorem isPlain_withComments (node : Node) :
    (withComments attached node).shape.isPlain = node.shape.isPlain := by
  apply Node.read_mapUp Shape.isPlain_mapParts
  exact fun _ => rfl

theorem id_withComments (node : Node) : (withComments attached node).id = node.id := by
  unfold Node.id
  rw [withComments_eq]

theorem line_withComments (node : Node) : (withComments attached node).line = node.line := by
  unfold Node.line
  rw [withComments_eq]

theorem lastLine_withComments (node : Node) :
    lastLine (withComments attached node) = lastLine node := by
  unfold lastLine Node.line Node.lastLine
  rw [withComments_eq]

theorem holds_withComments (node : Node) (line : Nat) :
    holds (withComments attached node) line = holds node line := by
  unfold holds
  rw [line_withComments, lastLine_withComments]

theorem children_withComments (node : Node) :
    (withComments attached node).children = node.children.map (withComments attached) := by
  unfold withComments
  rw [Node.mapUp_eq]
  exact Node.children_rebuilt _ node

theorem typesBelow_withComments (node : Node) :
    (withComments attached node).typesBelow = node.typesBelow.map (withComments attached) := by
  unfold Node.typesBelow
  rw [descendants_withComments, List.filter_map]
  congr 2
  exact funext fun part => isType_withComments attached part

theorem info_withComments_of_bare {node : Node} (bare : node.info.comments = []) :
    (withComments attached node).info.comments = attached node.id := by
  rw [withComments_eq, bare]
  rfl

end WithComments

end Attachment

open Attachment

namespace Node.Original

variable {root member : Node} (original : root.Original)

include original

theorem exists_parent_of_isPlain (isType : root.shape.isType) (inside : member ∈ root.descendants)
    (plain : member.shape.isPlain) : ∃ parent ∈ root.descendants, member ∈ parent.children ∧
      (parent.shape.isType ∨ parent.shape.family = .property ∧ member.shape.family = .method) := by
  obtain ⟨place, found, rfl⟩ := exists_mem_placesUp inside
  rcases Place.exists_parent found with rfl | ⟨parent, lies, -, isPart⟩
  · simp [Shape.isType_of_isPlain plain] at isType
  · refine ⟨parent, lies, isPart, ?_⟩
    rw [Shape.isType_eq, beq_iff_eq]
    exact Shape.Family.declares_of_holds ((original.layers parent lies).parts place.node isPart)
      (Shape.family_of_isPlain plain)

theorem exists_type_of_isPlain (isType : root.shape.isType) (inside : member ∈ root.descendants)
    (plain : member.shape.isPlain) : ∃ type ∈ root.descendants, ∃ decl, type.shape = .type decl ∧
      member ∈ decl.members := by
  have members {type part : Node} (isPart : part ∈ type.children) (isType : type.shape.isType) :
      ∃ decl, type.shape = .type decl ∧ part ∈ decl.members := by
    obtain ⟨decl, shape⟩ := (Shape.isType_iff _).1 isType
    exact ⟨decl, shape, by rwa [children, shape] at isPart⟩
  obtain ⟨parent, lies, isPart, inType | ⟨isProperty, -⟩⟩ :=
    original.exists_parent_of_isPlain isType inside plain
  · exact ⟨parent, lies, members isPart inType⟩
  · obtain ⟨property, shape⟩ := (Shape.family_eq_property_iff _).1 isProperty
    obtain ⟨type, among, isMember, inType | ⟨-, isMethod⟩⟩ :=
      original.exists_parent_of_isPlain isType lies (by rw [shape]; rfl)
    · obtain ⟨decl, isDecl, listed⟩ := members isMember inType
      have family := original.family_member among isDecl listed
      simp [isProperty] at family
    · simp [isProperty] at isMethod

end Node.Original

structure Node.Commented (root : Node) (comments : List Comment) : Prop where
  /-- The nodes have the comments of the text and no others. -/
  all : (root.descendants.flatMap (·.info.comments)).Perm comments
  once : ∀ comment ∈ comments, ∃ node ∈ root.descendants, comment ∈ node.info.comments ∧
    ∀ other ∈ root.descendants, comment ∈ other.info.comments → other = node
  declared : ∀ node ∈ root.descendants, node.info.comments ≠ [] → node.shape.isType ∨
    ∃ type ∈ root.descendants, ∃ decl, type.shape = .type decl ∧ node ∈ decl.members
  ordered : ∀ node ∈ root.descendants, node.info.comments.Sublist comments ∧
    node.info.comments.Pairwise (·.line < ·.line)
  held : ∀ comment ∈ comments, (∃ holder ∈ root.descendants, holder.shape.isPlain ∧
    holds holder comment.line) → ∃ member ∈ root.descendants, comment ∈ member.info.comments ∧
      member.shape.isPlain ∧ holds member comment.line

theorem Attachment.commented {root : Node} {comments : List Comment} (distinct : root.Distinct)
    (bare : ∀ node ∈ root.descendants, node.info.comments = []) (isType : root.shape.isType)
    (original : (attachComments root comments).Original)
    (lines : comments.Pairwise (·.line < ·.line)) :
    (attachComments root comments).Commented comments := by
  have isType' : (attachComments root comments).shape.isType := by
    rw [Shape.isType_eq, family_attachComments, ← Shape.isType_eq, isType]
  rw [attachComments_eq_owned] at original isType' ⊢
  generalize attaches : withComments (owned root comments) = attach at original isType' ⊢
  have images : (attach root).descendants = root.descendants.map attach := by
    rw [← attaches, descendants_withComments]
  have has : ∀ node ∈ root.descendants, (attach node).info.comments = owned root comments node.id := by
    intro node inside
    rw [← attaches, info_withComments_of_bare _ (bare node inside)]
  have same : ∀ node ∈ root.descendants, ∀ other ∈ root.descendants, node.id = other.id →
      node = other := fun node inside other among same =>
    List.inj_on_of_nodup_map distinct inside among same
  constructor
  · have ids : ((attach root).descendants.flatMap (·.info.comments)) =
        (root.descendants.map Node.id).flatMap (owned root comments) := by
      rw [images, List.flatMap_map, List.flatMap_map]
      exact List.flatMap_congr has
    rw [ids]
    apply flatMap_filter_perm (fun comment : Comment => owner root (declarations root) comment.line)
      distinct
    intro comment _
    obtain ⟨node, inside, isOwner, -⟩ := exists_owner isType comment.line
    exact List.mem_map.2 ⟨node, inside, isOwner⟩
  · intro comment listed
    obtain ⟨node, inside, isOwner, -⟩ := exists_owner isType comment.line
    refine ⟨attach node, ?_, ?_, ?_⟩
    · rw [images]
      exact List.mem_map_of_mem inside
    · rw [has node inside, mem_owned_iff]
      exact ⟨listed, isOwner.symm⟩
    · rw [images]
      intro other among carried
      obtain ⟨old, below, rfl⟩ := List.mem_map.1 among
      rw [has old below, mem_owned_iff] at carried
      rw [same old below node inside (carried.2.symm.trans isOwner.symm)]
  · rw [images]
    intro new among carries
    obtain ⟨old, below, rfl⟩ := List.mem_map.1 among
    rw [has old below] at carries
    obtain ⟨comment, carried⟩ := List.exists_mem_of_ne_nil _ carries
    obtain ⟨node, inside, isOwner, isMember, -⟩ := exists_owner isType comment.line
    obtain rfl := same node inside old below (isOwner.trans (mem_owned_iff.1 carried).2)
    rw [← isMember_withComments (owned root comments), attaches, Shape.isMember_eq,
      Bool.or_eq_true] at isMember
    rcases isMember with inType | plain
    · exact .inl inType
    · right
      rw [← images]
      refine original.exists_type_of_isPlain isType' ?_ plain
      rwa [images]
  · rw [images]
    intro new among
    obtain ⟨old, below, rfl⟩ := List.mem_map.1 among
    rw [has old below]
    exact ⟨List.filter_sublist, lines.filter _⟩
  · rw [images]
    rintro comment listed ⟨new, among, plain, holdsLine⟩
    obtain ⟨holder, below, rfl⟩ := List.mem_map.1 among
    obtain ⟨node, inside, isOwner, -, held⟩ := exists_owner isType comment.line
    rw [← attaches, isPlain_withComments] at plain
    rw [← attaches, holds_withComments] at holdsLine
    obtain ⟨isPlain, holdsToo⟩ := held ⟨holder, below, plain, holdsLine⟩
    refine ⟨attach node, List.mem_map_of_mem inside, ?_, ?_, ?_⟩
    · rw [has node inside, mem_owned_iff]
      exact ⟨listed, isOwner.symm⟩
    · rwa [← attaches, isPlain_withComments]
    · rwa [← attaches, holds_withComments]

theorem exists_attached {text name : String} {module : Module} (parsed : parseModule text name = .ok module) :
    ∃ root, module.root = Attachment.attachComments root (lex text).comments ∧
      (Attachment.attachComments root (lex text).comments).Commented (lex text).comments := by
  obtain ⟨root, made, whole⟩ := parseModule_made parsed
  have distinct := made.distinct
  have bare := made.bare
  rw [List.flatMap_singleton] at distinct bare
  have original := parseModule_original parsed
  have isType := parseModule_isType parsed
  rw [whole] at original isType
  rw [Shape.isType_eq, family_attachComments, ← Shape.isType_eq] at isType
  exact ⟨root, whole, commented distinct bare isType original (Lexer.run_comments _ _)⟩

/-- A module that is read keeps all comments of its text. -/
theorem parseModule_commented {text name : String} {module : Module}
    (parsed : parseModule text name = .ok module) : module.root.Commented (lex text).comments := by
  obtain ⟨root, whole, commented⟩ := exists_attached parsed
  rw [whole]
  exact commented

/-- The only comment of a text is the only one in the tree. -/
theorem parseModule_commented_one : ∃ module,
    parseModule "Sub A\n' in\nEnd Sub" "M" = .ok module ∧
    ∃ node ∈ module.root.descendants, node.info.comments = [⟨2, "in"⟩] ∧
      ∀ other ∈ module.root.descendants, other ≠ node → other.info.comments = [] := by
  have reads : (parseModule "Sub A\n' in\nEnd Sub" "M").toOption.any fun _ => true := by
    decide +kernel
  have recorded : (lex "Sub A\n' in\nEnd Sub").comments = [⟨2, "in"⟩] := by
    decide +kernel
  obtain ⟨module, parsed, -⟩ := exists_module_of_any reads
  have commented := parseModule_commented parsed
  rw [recorded] at commented
  obtain ⟨node, inside, carried, only⟩ := commented.once _ List.mem_cons_self
  have all (other : Node) (among : other ∈ module.root.descendants) :=
    List.sublist_singleton.1 (commented.ordered other among).1
  refine ⟨module, parsed, node, inside, ?_, fun other among differs => ?_⟩
  · exact (all node inside).resolve_left (List.ne_nil_of_mem carried)
  · refine (all other among).resolve_right fun whole => differs (only other among ?_)
    rw [whole]
    exact List.mem_cons_self

end ScriptMigration
