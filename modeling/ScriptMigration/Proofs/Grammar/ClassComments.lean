import ScriptMigration.Proofs.Grammar.Comments
import ScriptMigration.Proofs.Grammar.LineOrder

/-! The comments within the lines of a class. They stay with the class or with what is in it, unless the
loose statements around the class become a constructor whose lines go over it. -/
namespace ScriptMigration

structure Node.Among (inner outer : Node) : Prop where
  begins : outer.line ≤ inner.line
  ends : Attachment.lastLine inner ≤ Attachment.lastLine outer

namespace Node.Among

variable {first second third left right : Node}

theorem refl (node : Node) : node.Among node := ⟨le_rfl, le_rfl⟩

theorem trans (inner : first.Among second) (outer : second.Among third) : first.Among third :=
  ⟨outer.begins.trans inner.begins, inner.ends.trans outer.ends⟩

theorem precedes (inLeft : first.Among left) (before : left.Precedes right)
    (inRight : second.Among right) : first.Precedes second :=
  inLeft.ends.trans (before.trans inRight.begins)

end Node.Among

def Node.NestedOrApart (type other : Node) : Prop :=
  other ∈ type.descendants ∨ type ∈ other.descendants ∨ type.Precedes other ∨ other.Precedes type

def Node.OnOwnLines (root type : Node) : Prop :=
  ∀ other ∈ root.typesBelow, other ≠ root → type ∈ other.descendants → other.line = type.line →
    Attachment.lastLine other = Attachment.lastLine type → other = type

theorem Node.mem_typesBelow_cases {type node : Node} (inside : type ∈ node.typesBelow) :
    type = node ∨ ∃ part ∈ node.children, type ∈ part.typesBelow := by
  obtain ⟨below, isType⟩ := mem_typesBelow.1 inside
  refine (mem_descendants_cases below).imp_right ?_
  exact fun ⟨part, isPart, deeper⟩ => ⟨part, isPart, mem_typesBelow.2 ⟨deeper, isType⟩⟩

namespace InLines

variable {first last : Nat} {nodes : List Node} {left right inner outer : Node}

theorem apart (lines : InLines first last nodes) (one : left ∈ nodes) (two : right ∈ nodes)
    (inLeft : inner.Among left) (inRight : outer.Among right) :
    left = right ∨ inner.Precedes outer ∨ outer.Precedes inner :=
  (lines.trichotomy one two).imp_right (Or.imp (fun before => inLeft.precedes before inRight)
    fun before => inRight.precedes before inLeft)

end InLines

namespace Node.Neat

variable {node type other : Node} {decl : TypeDecl Node}

theorem among (neat : node.Neat) (inside : type ∈ node.typesBelow) : type.Among node := by
  induction neat with
  | bare none => exact nomatch none ▸ inside
  | @type node decl shape lines members ih =>
    rcases mem_typesBelow_cases inside with rfl | ⟨member, isMember, below⟩
    · exact .refl _
    · rw [children, shape] at isMember
      have held := lines.within member isMember
      exact (ih member isMember below).trans ⟨held.1, held.2⟩

theorem neat_type (neat : node.Neat) (inside : type ∈ node.typesBelow) : type.Neat := by
  induction neat with
  | bare none => exact nomatch none ▸ inside
  | @type node decl shape lines members ih =>
    rcases mem_typesBelow_cases inside with rfl | ⟨member, isMember, below⟩
    · exact .type shape lines members
    · rw [children, shape] at isMember
      exact ih member isMember below

theorem members (neat : node.Neat) (shape : node.shape = .type decl) :
    InLines node.line (Attachment.lastLine node) decl.members ∧
      ∀ member ∈ decl.members, member.Neat := by
  cases neat with
  | bare none => simp [typesBelow_eq, shape, Shape.isType] at none
  | type shape' lines members =>
    obtain rfl := Shape.type.inj (shape'.symm.trans shape)
    exact ⟨lines, members⟩

end Node.Neat

namespace InLines

variable {first last : Nat} {nodes : List Node} {left right type other member : Node}

theorem nested_or_apart (lines : InLines first last nodes) (neat : ∀ node ∈ nodes, node.Neat)
    (within : ∀ node ∈ nodes, ∀ type ∈ node.typesBelow, ∀ other ∈ node.typesBelow,
      type.NestedOrApart other) (one : left ∈ nodes) (two : right ∈ nodes)
    (inLeft : type ∈ left.typesBelow) (inRight : other ∈ right.typesBelow) :
    type.NestedOrApart other := by
  rcases lines.apart one two ((neat left one).among inLeft) ((neat right two).among inRight)
    with rfl | apart
  · exact within left one type inLeft other inRight
  · exact .inr (.inr apart)

theorem apart_of_plain (lines : InLines first last nodes) (neat : ∀ node ∈ nodes, node.Neat)
    (listed : member ∈ nodes) (plain : member.shape.isPlain) (two : right ∈ nodes)
    (inside : type ∈ right.typesBelow) : member.Precedes type ∨ type.Precedes member := by
  refine (lines.apart listed two (.refl member) ((neat right two).among inside)).resolve_left ?_
  rintro rfl
  -- there is no type in a field or a procedure
  cases neat member two with
  | bare none => exact nomatch none ▸ inside
  | type shape => simp [shape, Shape.isPlain] at plain

end InLines

theorem Node.Neat.nested_or_apart {node : Node} (neat : node.Neat) :
    ∀ type ∈ node.typesBelow, ∀ other ∈ node.typesBelow, type.NestedOrApart other := by
  induction neat with
  | bare none => exact fun type inside => nomatch none ▸ inside
  | @type node decl shape lines members ih =>
    intro type inside other among
    rcases mem_typesBelow_cases inside with rfl | ⟨left, one, inLeft⟩
    · exact .inl (mem_typesBelow.1 among).1
    rcases mem_typesBelow_cases among with rfl | ⟨right, two, inRight⟩
    · exact .inr (.inl (mem_typesBelow.1 inside).1)
    rw [children, shape] at one two
    exact lines.nested_or_apart members ih one two inLeft inRight

theorem Node.not_apart {holder type : Node} {line : Nat} (holdsLine : Attachment.holds holder line)
    (after : type.line < line) (before : line < Attachment.lastLine type) :
    ¬ (holder.Precedes type ∨ type.Precedes holder) := by
  simp only [Attachment.holds, Bool.and_eq_true, decide_eq_true_eq] at holdsLine
  unfold Precedes
  omega

namespace ModuleText.Composed

open Attachment

variable {root type other holder : Node} {decl : TypeDecl Node} {fields rest : List Node}
  {constructor : Option Node} {line : Nat} (composed : Composed root decl fields rest constructor)
  (original : root.Original)

include composed original

theorem exists_member (inside : type ∈ root.typesBelow) (differs : type ≠ root) :
    ∃ member ∈ fields ++ rest, type ∈ member.typesBelow := by
  obtain ⟨member, isPart, below⟩ := (Node.mem_typesBelow_cases inside).resolve_left differs
  have listed : member ∈ decl.members := by
    rwa [Node.children, composed.shape] at isPart
  refine ⟨member, ?_, below⟩
  have isMember := listed
  rw [composed.members] at isMember
  simp only [List.mem_append, Option.mem_toList] at isMember ⊢
  rcases isMember with (field | made) | later
  · exact .inl field
  · -- the constructor has no types in it
    have none := original.typesBelow_member root.mem_descendants_self composed.shape listed
      (Shape.isType_of_isImplied (composed.implied member made))
    rw [none] at below
    cases below
  · exact .inr later

theorem nested_or_apart (inside : type ∈ root.typesBelow) (differs : type ≠ root)
    (among : other ∈ root.typesBelow) (differs' : other ≠ root) : type.NestedOrApart other := by
  obtain ⟨left, one, inLeft⟩ := composed.exists_member original inside differs
  obtain ⟨right, two, inRight⟩ := composed.exists_member original among differs'
  obtain ⟨first, last, lines⟩ := composed.lines
  exact lines.nested_or_apart composed.neat
    (fun node listed => (composed.neat node listed).nested_or_apart) one two inLeft inRight

theorem neat_type (inside : type ∈ root.typesBelow) (differs : type ≠ root) : type.Neat := by
  obtain ⟨member, isMember, below⟩ := composed.exists_member original inside differs
  exact (composed.neat member isMember).neat_type below

theorem holder_cases (inside : type ∈ root.typesBelow) (differs : type ≠ root)
    (after : type.line < line) (before : line < lastLine type) (lies : holder ∈ root.descendants)
    (plain : holder.shape.isPlain) (holdsLine : holds holder line) :
    holder ∈ type.descendants ∨ constructor = some holder := by
  have isRoot : root.shape.isType := by
    rw [composed.shape]
    rfl
  have together := Node.not_apart holdsLine after before
  obtain ⟨owner, among, ownerDecl, shape, listed⟩ :=
    original.exists_type_of_isPlain isRoot lies plain
  have isOwner : owner ∈ root.typesBelow := Node.mem_typesBelow.2 ⟨among, by rw [shape]; rfl⟩
  by_cases top : owner = root
  · subst top
    obtain rfl := Shape.type.inj (shape.symm.trans composed.shape)
    rw [composed.members] at listed
    simp only [List.mem_append, Option.mem_toList, or_right_comm] at listed
    refine listed.elim (fun written => ?_) .inr
    obtain ⟨member, isMember, below⟩ := composed.exists_member original inside differs
    obtain ⟨first, last, lines⟩ := composed.lines
    exact absurd (lines.apart_of_plain composed.neat (List.mem_append.2 written) plain isMember below)
      together
  · left
    obtain ⟨inner, areNeat⟩ := (composed.neat_type original isOwner top).members shape
    have held : holder.Among owner := ⟨(inner.within holder listed).1, (inner.within holder listed).2⟩
    have isPart : holder ∈ owner.children := by rwa [Node.children, shape]
    rcases composed.nested_or_apart original inside differs isOwner top with
      below | around | first | later
    · exact Node.mem_descendants_trans (Node.child_mem_descendants isPart) below
    · have isType := (Node.mem_typesBelow.1 inside).2
      rcases Node.mem_typesBelow_cases (Node.mem_typesBelow.2 ⟨around, isType⟩) with
        rfl | ⟨member, isMember, inMember⟩
      · exact Node.child_mem_descendants isPart
      · rw [Node.children, shape] at isMember
        exact absurd (inner.apart_of_plain areNeat listed plain isMember inMember) together
    · exact absurd (.inr ((Node.Among.refl type).precedes first held)) together
    · exact absurd (.inl (held.precedes later (.refl type))) together

/-- The smallest type around a line within a type is in that type, unless the types around it begin and
end with it. -/
theorem smallest_mem (inside : type ∈ root.typesBelow) (differs : type ≠ root)
    (alone : root.OnOwnLines type) (after : type.line < line) (before : line < lastLine type) :
    ∃ least ∈ type.descendants,
      smallest ((declarations root).filter (·.node.shape.isType)) line = some least := by
  obtain ⟨below, isType⟩ := Node.mem_typesBelow.1 inside
  have holdsLine : holds type line := by
    simp only [holds, Bool.and_eq_true, decide_eq_true_eq]
    omega
  obtain ⟨place, declared, rfl⟩ :=
    exists_declaration below (by simp [Shape.isMember_eq, isType]) differs
  have listed : place ∈ (declarations root).filter (·.node.shape.isType) :=
    List.mem_filter.2 ⟨declared, isType⟩
  cases found : smallest ((declarations root).filter (·.node.shape.isType)) line with
  | none => simp [not_holds_of_smallest found place listed] at holdsLine
  | some least =>
    refine ⟨least, ?_, rfl⟩
    have narrow := smallest_le found place listed holdsLine
    obtain ⟨has, narrowest, among, rfl⟩ := mem_of_smallest found
    obtain ⟨isDeclared, isType'⟩ := List.mem_filter.1 among
    have isBelow : narrowest.node ∈ root.typesBelow :=
      Node.mem_typesBelow.2 ⟨(mem_of_declarations isDeclared).1, isType'⟩
    have other := ne_root_of_declarations original.distinct isDeclared
    rcases composed.nested_or_apart original inside differs isBelow other with
      within | around | apart
    · exact within
    · -- no narrower than the type, so as wide
      have held := (composed.neat_type original isBelow other).among
        (Node.mem_typesBelow.2 ⟨around, isType⟩)
      have starts := held.begins
      have ends := held.ends
      have wide : place.node.line ≤ lastLine place.node := Nat.le_max_right _ _
      rw [alone _ isBelow other around (by omega) (by omega)]
      exact Node.mem_descendants_self _
    · exact absurd apart.symm (Node.not_apart has after before)

theorem exists_owner (inside : type ∈ root.typesBelow) (differs : type ≠ root)
    (alone : root.OnOwnLines type) (after : type.line < line) (before : line < lastLine type) :
    ∃ node ∈ root.descendants, node.id = owner root (declarations root) line ∧
        (node ∈ type.descendants ∨ constructor = some node ∧ holds node line) := by
  have below := (Node.mem_typesBelow.1 inside).1
  obtain ⟨least, isWithin, enclosing⟩ :=
    composed.smallest_mem original inside differs alone after before
  have lies {node : Node} (within : node ∈ type.descendants) : node ∈ root.descendants :=
    Node.mem_descendants_trans within below
  unfold owner
  rw [List.partition_eq_filter_filter]
  dsimp only
  split
  · rename_i holder inner
    obtain ⟨has, place, listed, rfl⟩ := mem_of_smallest inner
    obtain ⟨declared, noType⟩ := List.mem_filter.1 listed
    obtain ⟨among, isMember⟩ := mem_of_declarations declared
    have plain : place.node.shape.isPlain := by
      rw [Shape.isMember_eq, Bool.or_eq_true] at isMember
      exact isMember.resolve_left (by simpa using noType)
    refine ⟨place.node, among, rfl, ?_⟩
    exact (composed.holder_cases original inside differs after before among plain has).imp_right
      fun made => ⟨made, has⟩
  · rw [enclosing, Option.getD_some]
    split
    · -- the next declaration in the smallest type
      rename_i place next
      obtain ⟨declared, inType⟩ := List.mem_filter.1 (mem_of_firstLeast next)
      simp only [Bool.and_eq_true, beq_iff_eq, Option.map_eq_some_iff] at inType
      obtain ⟨-, outer, isOuter, same⟩ := inType
      have found := Node.mem_places_iff.1 (List.mem_of_mem_drop (List.mem_filter.1 declared).1)
      obtain ⟨among, isPart⟩ := Place.mem_of_around found (List.mem_of_find?_eq_some isOuter)
      obtain rfl := List.inj_on_of_nodup_map original.distinct among (lies isWithin) same
      have within := Node.mem_descendants_trans isPart isWithin
      exact ⟨place.node, lies within, rfl, .inl within⟩
    · exact ⟨least, lies isWithin, rfl, .inl isWithin⟩

end ModuleText.Composed

namespace ModuleText

open Reader

variable {bound : Nat} {name text : String} {top : TopLevel} {root : Node} {last : State}

theorem reader_original {state : State} (returns : reader bound name state = .ok (top, root) last) :
    root.Original ∧ ∀ node ∈ root.descendants, node.info.comments = [] := by
  obtain ⟨layers, declared⟩ := read_yields bound name state _ last trivial returns
  have given := read_gives bound name 0 state (Nat.zero_le _) .nil
  unfold reader at returns
  rw [returns] at given
  obtain ⟨-, made, -⟩ := given
  have distinct := made.distinct
  have bare := made.bare
  rw [List.flatMap_singleton] at distinct bare
  exact ⟨⟨distinct, layers.layers, declared⟩, bare⟩

theorem reader_composed (returns : reader bound name (.start (lex text)) = .ok (top, root) last) :
    ∃ decl fields rest constructor, Composed root decl fields rest constructor := by
  have composes : Leads (State.Ending ⟨0, 0, 0⟩) (reader bound name) fun result _ =>
      result.2.shape.isType → ∃ decl fields rest constructor,
        Composed result.2 decl fields rest constructor := by
    refine (items_arranged bound _).bind fun top => ?_
    rintro state result later ⟨⟨high, lines, -⟩, neat⟩ returns
    have composes : Yields (do return (top, ← shape name top)) fun result : TopLevel × Node =>
        result.2.shape.isType → ∃ decl fields rest constructor,
          Composed result.2 decl fields rest constructor :=
      (shape_composed name lines neat).take fun root composed => .pure fun _ _ => composed
    exact composes state result later trivial returns
  have isType := reader_isType bound name _ _ last trivial returns
  exact composes _ _ _ (State.start_inOrder text).ending returns isType

end ModuleText

namespace Attachment

variable (attached : NodeId → List Comment) (node : Node)

theorem isImplied_withComments :
    (withComments attached node).shape.isImplied = node.shape.isImplied := by
  apply Node.read_mapUp Shape.isImplied_mapParts
  exact fun _ => rfl

variable {attached node} {root left right type : Node}

theorem withComments_inj (distinct : root.Distinct) (one : left ∈ root.descendants)
    (two : right ∈ root.descendants)
    (same : withComments attached left = withComments attached right) : left = right := by
  refine List.inj_on_of_nodup_map distinct one two ?_
  rw [← id_withComments attached, same, id_withComments]

theorem onOwnLines_of_withComments (distinct : root.Distinct) (inside : type ∈ root.descendants)
    (alone : (withComments attached root).OnOwnLines (withComments attached type)) :
    root.OnOwnLines type := by
  intro other listed apart around line last
  have below := (Node.mem_typesBelow.1 listed).1
  refine withComments_inj distinct below inside (alone _ ?_ (fun same => ?_) ?_ ?_ ?_)
  · rw [typesBelow_withComments]
    exact List.mem_map_of_mem listed
  · exact apart (withComments_inj distinct below root.mem_descendants_self same)
  · rw [descendants_withComments]
    exact List.mem_map_of_mem around
  · rwa [line_withComments, line_withComments]
  · rwa [lastLine_withComments, lastLine_withComments]

end Attachment

open Attachment

theorem ModuleText.Composed.mem_comments {root type : Node} {decl : TypeDecl Node}
    {fields rest : List Node} {constructor : Option Node} {comments : List Comment}
    {comment : Comment} (composed : Composed root decl fields rest constructor)
    (original : root.Original) (bare : ∀ node ∈ root.descendants, node.info.comments = [])
    (inside : type ∈ (attachComments root comments).typesBelow)
    (differs : type ≠ attachComments root comments)
    (alone : (attachComments root comments).OnOwnLines type)
    (recorded : comment ∈ comments) (after : type.line < comment.line)
    (before : comment.line < lastLine type) :
    (∃ node ∈ type.descendants, comment ∈ node.info.comments) ∨
      ∃ constructor ∈ (attachComments root comments).children, constructor.shape.isImplied ∧
        holds constructor comment.line ∧ comment ∈ constructor.info.comments := by
  rw [attachComments_eq_owned] at *
  let attach := withComments (owned root comments)
  rw [typesBelow_withComments] at inside
  obtain ⟨old, among, rfl⟩ := List.mem_map.1 inside
  rw [line_withComments] at after
  rw [lastLine_withComments] at before
  have unique : root.OnOwnLines old :=
    onOwnLines_of_withComments original.distinct (Node.mem_typesBelow.1 among).1 alone
  have nested : old ≠ root := fun same => differs (congrArg attach same)
  obtain ⟨node, lies, isOwner, place⟩ :=
    composed.exists_owner original among nested unique after before
  have carried : comment ∈ (attach node).info.comments := by
    rw [info_withComments_of_bare _ (bare node lies), mem_owned_iff]
    exact ⟨recorded, isOwner.symm⟩
  refine place.imp (fun within => ?_) fun ⟨made, has⟩ => ?_
  · refine ⟨attach node, ?_, carried⟩
    rw [descendants_withComments]
    exact List.mem_map_of_mem within
  · refine ⟨attach node, ?_, ?_, ?_, carried⟩
    · rw [children_withComments, Node.children, composed.shape]
      have listed : node ∈ decl.members := by
        simp [composed.members, made]
      exact List.mem_map_of_mem listed
    · rw [isImplied_withComments]
      exact composed.implied node made
    · rwa [holds_withComments]

/-- A comment between the line that opens a nested class and the one that closes it is at the class, or
at what is in it, or at the constructor that the text does not write itself and that begins before the
comment and ends after it. -/
theorem parseModule_class_comments {text name : String} {module : Module}
    (parsed : parseModule text name = .ok module) {type : Node} {comment : Comment}
    (inside : type ∈ module.root.typesBelow) (differs : type ≠ module.root)
    (alone : module.root.OnOwnLines type)
    (recorded : comment ∈ (lex text).comments) (after : type.line < comment.line)
    (before : comment.line < lastLine type) :
    (∃ node ∈ type.descendants, comment ∈ node.info.comments) ∨
      ∃ constructor ∈ module.root.children, constructor.shape.isImplied ∧
        holds constructor comment.line ∧ comment ∈ constructor.info.comments := by
  obtain ⟨top, root, last, returns, whole, -⟩ := parseModule_reading parsed
  obtain ⟨original, bare⟩ := ModuleText.reader_original returns
  obtain ⟨decl, fields, rest, constructor, composed⟩ := ModuleText.reader_composed returns
  rw [whole] at inside differs alone ⊢
  exact composed.mem_comments original bare inside differs alone recorded after before

theorem exists_reading_of_any (text name : String) (comments : List Comment) (check : Node → Bool)
    (reads : (match ModuleText.reader ((lex text).tokens.length + 1) name (.start (lex text)) with
      | .ok (_, root) last => (lex text).faults.isEmpty && last.noted.isEmpty &&
          decide ((lex text).comments = comments) && check root
      | .error _ _ => false : Bool)) :
    ∃ module root, parseModule text name = .ok module ∧ (lex text).comments = comments ∧
      module.root = attachComments root comments ∧ check root := by
  split at reads
  · rename_i top root last returns
    simp only [Bool.and_eq_true, decide_eq_true_eq] at reads
    obtain ⟨⟨⟨sound, quiet⟩, recorded⟩, checked⟩ := reads
    cases parsed : parseModule text name with
    | error faults =>
      rw [parseModule_eq, parseModuleWithin] at parsed
      simp [sound, quiet, returns] at parsed
    | ok module =>
      obtain ⟨_, _, _, returns', whole, -⟩ := parseModule_reading parsed
      obtain ⟨same, -⟩ := EStateM.Result.ok.inj (returns.symm.trans returns')
      obtain ⟨-, rfl⟩ := Prod.mk.inj same
      exact ⟨module, root, rfl, recorded, recorded ▸ whole, checked⟩
  · exact nomatch reads

/-- Of two classes the first one keeps its comment. -/
theorem parseModule_class_comments_two : ∃ module,
    parseModule "Class A\n' c\nEnd Class\nClass B\nEnd Class" "M" = .ok module ∧
    ∃ type ∈ module.root.typesBelow, type ≠ module.root ∧ type.line < 2 ∧ 2 < lastLine type ∧
      ⟨2, "c"⟩ ∈ type.info.comments := by
  let check (root : Node) : Bool :=
    (root.children.all fun node => node.shape.isType && node.children.isEmpty) &&
      root.children.any fun node => node.line == 1 && lastLine node == 3
  obtain ⟨module, root, parsed, recorded, whole, checks⟩ := exists_reading_of_any
    "Class A\n' c\nEnd Class\nClass B\nEnd Class" "M" [⟨2, "c"⟩] check (by decide +kernel)
  simp only [check, Bool.and_eq_true, List.all_eq_true, List.any_eq_true, List.isEmpty_iff,
    beq_iff_eq] at checks
  obtain ⟨areBare, old, isPart, begins, ends⟩ := checks
  rw [attachComments_eq_owned] at whole
  have bare : ∀ part ∈ module.root.children, part.shape.isType ∧ part.descendants = [part] := by
    rw [whole, children_withComments]
    refine List.forall_mem_map.2 fun part listed => ?_
    rw [isType_withComments, descendants_withComments, Node.descendants_eq, (areBare part listed).2]
    exact ⟨(areBare part listed).1, rfl⟩
  let type := withComments (owned root [⟨2, "c"⟩]) old
  have listed : type ∈ module.root.children := by
    rw [whole, children_withComments]
    exact List.mem_map_of_mem isPart
  have differs : type ≠ module.root := by
    intro same
    have alone := (bare type listed).2
    rw [same, Node.descendants_eq, List.cons.injEq, List.flatMap_eq_nil_iff] at alone
    exact nomatch (Node.descendants_eq _).symm.trans (alone.2 type listed)
  have inside : type ∈ module.root.typesBelow :=
    Node.mem_typesBelow.2 ⟨Node.child_mem_descendants listed, (bare type listed).1⟩
  have after : type.line < 2 := by
    rw [line_withComments, begins]
    decide
  have before : 2 < lastLine type := by
    rw [lastLine_withComments, ends]
    decide
  refine ⟨module, parsed, type, inside, differs, after, before, ?_⟩
  have alone : module.root.OnOwnLines type := by
    intro other among apart around _ _
    -- no type is in another one but the root
    obtain ⟨part, isPart', below⟩ :=
      (Node.mem_descendants_cases (Node.mem_typesBelow.1 among).1).resolve_left apart
    rw [(bare part isPart').2, List.mem_singleton] at below
    rw [below, (bare part isPart').2, List.mem_singleton] at around
    rw [below, around]
  rcases parseModule_class_comments parsed inside differs alone (recorded ▸ List.mem_cons_self)
    after before with ⟨node, lies, carried⟩ | ⟨constructor, isPart', implied, -⟩
  · rw [(bare type listed).2, List.mem_singleton] at lies
    rwa [lies] at carried
  · have noType := Shape.isType_of_isImplied implied
    simp [(bare constructor isPart').1] at noType

/-- The constructor that the statements before and after a class become has the comment of the class. -/
theorem parseModule_loose_around_class : ∃ module,
    parseModule "x = 1\nClass A\n' c\nEnd Class\ny = 2\n" "M" = .ok module ∧
    ∃ type ∈ module.root.typesBelow, type ≠ module.root ∧
      ∃ comment ∈ (lex "x = 1\nClass A\n' c\nEnd Class\ny = 2\n").comments,
        type.line < comment.line ∧ comment.line < lastLine type ∧
        ∀ node ∈ type.descendants, comment ∉ node.info.comments := by
  let check (root : Node) : Bool :=
    (root.children.any fun node => node.shape.isPlain && holds node 3) &&
      root.children.any fun node => node.shape.isType && node.children.isEmpty && node.line == 2 &&
        lastLine node == 4
  obtain ⟨module, root, parsed, recorded, whole, checks⟩ := exists_reading_of_any
    "x = 1\nClass A\n' c\nEnd Class\ny = 2\n" "M" [⟨3, "c"⟩] check (by decide +kernel)
  simp only [check, Bool.and_eq_true, List.any_eq_true, List.isEmpty_iff, beq_iff_eq] at checks
  obtain ⟨⟨holder, isMember, plain, has⟩, old, isPart, ⟨⟨isType, bare⟩, begins⟩, ends⟩ := checks
  obtain ⟨_, attached, commented⟩ := exists_attached parsed
  rw [← attached, recorded] at commented
  rw [recorded]
  rw [attachComments_eq_owned] at whole
  let attach := withComments (owned root [⟨3, "c"⟩])
  have parts {part : Node} (listed : part ∈ root.children) : attach part ∈ module.root.children := by
    rw [whole, children_withComments]
    exact List.mem_map_of_mem listed
  have alone : (attach old).descendants = [attach old] := by
    rw [descendants_withComments, Node.descendants_eq, bare]
    rfl
  have isType' : (attach old).shape.isType := by
    rwa [isType_withComments]
  refine ⟨module, parsed, attach old, ?_, fun same => ?_, _, List.mem_singleton_self _, ?_, ?_, ?_⟩
  · exact Node.mem_typesBelow.2 ⟨Node.child_mem_descendants (parts isPart), isType'⟩
  · rw [same, Node.descendants_eq, List.cons.injEq, List.flatMap_eq_nil_iff] at alone
    exact nomatch (Node.descendants_eq _).symm.trans (alone.2 _ (parts isPart))
  · rw [line_withComments, begins]
    decide
  · rw [lastLine_withComments, ends]
    decide
  · -- a member that is no type has the comment
    obtain ⟨member, lies, carried, isPlain, -⟩ := commented.held _ (List.mem_singleton_self _)
      ⟨attach holder, Node.child_mem_descendants (parts isMember),
        by rwa [isPlain_withComments], by rwa [holds_withComments]⟩
    obtain ⟨one, -, -, only⟩ := commented.once _ (List.mem_singleton_self _)
    rw [alone]
    refine List.forall_mem_singleton.2 fun carried' => ?_
    have same := (only member lies carried).trans
      (only _ (Node.child_mem_descendants (parts isPart)) carried').symm
    rw [same] at isPlain
    simp [Shape.isType_of_isPlain isPlain] at isType'

end ScriptMigration
