import Mathlib.Data.List.Perm.Basic
import Mathlib.Data.Prod.Lex
import Mathlib.Data.String.Basic
import ScriptMigration.Proofs.List.Repeats
import ScriptMigration.Proofs.Resolution.Constants
import ScriptMigration.Proofs.Syntax.Rebuild
import ScriptMigration.Proofs.Text.Name

/-! The namespaces that a script imports. They are those that its tree needs, each once, in an order that
is decided by their letters without case: the base namespace, those that begin with the same part, and
the rest. Of several types that are told apart by nothing, only the first that the tree touches counts,
so where their namespaces differ, the order of the statements shows in the list. -/
namespace ScriptMigration

theorem eq_filter_append {α : Type} {p : α → Bool} {items : List α}
    (ordered : items.Pairwise fun first second => p second → p first) :
    items = items.filter p ++ items.filter (!p ·) := by
  induction items with
  | nil => rfl
  | cons item items ih =>
    obtain ⟨before, rest⟩ := List.pairwise_cons.1 ordered
    cases isFirst : p item with
    | true => simpa [isFirst] using ih rest
    | false =>
      have none : items.filter p = [] := List.filter_eq_nil_iff.2 fun other listed also => by
        rw [before other listed also] at isFirst
        exact nomatch isFirst
      have all : items.filter (!p ·) = items := by
        have whole := ih rest
        rw [none, List.nil_append] at whole
        exact whole.symm
      rw [List.filter_cons_of_neg (by simp [isFirst]), none, List.filter_cons_of_pos (by simp [isFirst]),
        all, List.nil_append]

namespace Imports

variable {base left right : String} {spaces : List String}

theorem foldCase_firstPart (space : String) : foldCase (firstPart space) = firstPart (foldCase space) := by
  have dot (c : Char) : (c.toLower != '.') = (c != '.') :=
    congrArg (!·) (beq_toLower '.' rfl c)
  apply String.ext
  simp only [foldCase, FoldedName.of, firstPart, String.toList_map, String.toList_ofList,
    List.takeWhile_map, Function.comp_def, dot]

theorem sameName_firstPart (same : sameName left right) : sameName (firstPart left) (firstPart right) := by
  rw [sameName_iff_foldCase, foldCase_firstPart, foldCase_firstPart, sameName_iff_foldCase.1 same]

theorem group_congr (same : sameName left right) : group base left = group base right := by
  have whole : FoldedName.of left = FoldedName.of right := eq_of_beq same
  have parts : FoldedName.of (firstPart left) = FoldedName.of (firstPart right) :=
    eq_of_beq (sameName_firstPart same)
  unfold group sameName
  rw [whole, parts]

def rank (base space : String) : ℕ ×ₗ String := toLex (group base space, foldCase space)

theorem rank_eq_iff : rank base left = rank base right ↔ sameName left right := by
  rw [rank, rank, toLex_inj, Prod.mk.injEq, ← sameName_iff_foldCase]
  exact and_iff_right_of_imp group_congr

theorem rank_lt_iff : rank base left < rank base right ↔ group base left < group base right ∨
    group base left = group base right ∧ foldCase left < foldCase right :=
  Prod.Lex.toLex_lt_toLex

theorem le_iff : le base left right ↔
    rank base left < rank base right ∨ rank base left = rank base right ∧ left ≤ right := by
  rw [rank_lt_iff, rank, rank, toLex_inj, Prod.mk.injEq, le]
  by_cases groups : group base left = group base right
  · by_cases letters : foldCase left = foldCase right
    · simp [groups, letters]
    · simp [groups, letters, le_iff_lt_or_eq]
  · simp [groups, le_iff_lt_or_eq]

theorem le_iff_toLex : le base left right ↔
    toLex (rank base left, left) ≤ toLex (rank base right, right) := by
  rw [le_iff, Prod.Lex.toLex_le_toLex]

theorem pairwise_sorted (base : String) (spaces : List String) :
    (spaces.mergeSort (le base)).Pairwise fun left right => le base left right :=
  List.pairwise_mergeSort (fun _ _ _ first second => by
      rw [le_iff_toLex] at *
      exact first.trans second)
    (fun left right => by
      rw [Bool.or_eq_true, le_iff_toLex, le_iff_toLex]
      exact le_total _ _) spaces

theorem group_eq_zero {space : String} : group base space = 0 ↔ sameName space base := by
  unfold group
  split
  · simp [*]
  · split <;> simp [*]

theorem group_eq_one {space : String} : group base space = 1 ↔
    ¬ sameName space base ∧ sameName (firstPart space) (firstPart base) := by
  unfold group
  split
  · simp [*]
  · split <;> simp [*]

theorem group_eq_two {space : String} : group base space = 2 ↔
    ¬ sameName space base ∧ ¬ sameName (firstPart space) (firstPart base) := by
  unfold group
  split
  · simp [*]
  · split <;> simp [*]

theorem group_cases (base space : String) :
    group base space = 0 ∨ group base space = 1 ∨ group base space = 2 := by
  unfold group
  split
  · exact .inl rfl
  · split
    · exact .inr (.inl rfl)
    · exact .inr (.inr rfl)

theorem eq_groups (groups : spaces.Pairwise fun left right => group base left ≤ group base right) :
    spaces = spaces.filter (group base · == 0) ++
      (spaces.filter (group base · == 1) ++ spaces.filter (group base · == 2)) := by
  have ownFirst : spaces =
      spaces.filter (group base · == 0) ++ spaces.filter (!group base · == 0) :=
    eq_filter_append (groups.imp fun less isOwn => by
      rw [beq_iff_eq] at isOwn ⊢
      omega)
  have others := groups.sublist (List.filter_sublist (p := (!group base · == 0)))
  have nearFirst : spaces.filter (!group base · == 0) =
      (spaces.filter (!group base · == 0)).filter (group base · == 1) ++
        (spaces.filter (!group base · == 0)).filter (!group base · == 1) :=
    eq_filter_append (others.imp_of_mem fun {left right} isLeft _ less isNear => by
      have differs := (List.mem_filter.1 isLeft).2
      rw [Bool.not_eq_true', beq_eq_false_iff_ne] at differs
      rw [beq_iff_eq] at isNear ⊢
      omega)
  refine ownFirst.trans (congrArg _ (nearFirst.trans ?_))
  rw [List.filter_filter, List.filter_filter]
  congr 1 <;> refine List.filter_congr fun space _ => ?_
  · rcases group_cases base space with same | same | same <;> simp [same]
  · rcases group_cases base space with same | same | same <;> simp [same]

/-- Namespaces in the order of imports: the base namespace, then those that begin with the same part,
then the rest, both by their letters without case. -/
def Arranged (base : String) (spaces : List String) : Prop :=
  ∃ own near rest, spaces = own ++ (near ++ rest) ∧
    own.length ≤ 1 ∧ (∀ space ∈ own, sameName space base) ∧
    (∀ space ∈ near, ¬ sameName space base ∧ sameName (firstPart space) (firstPart base)) ∧
    (∀ space ∈ rest, ¬ sameName space base ∧ ¬ sameName (firstPart space) (firstPart base)) ∧
    (near.Pairwise fun left right => foldCase left < foldCase right) ∧
    rest.Pairwise fun left right => foldCase left < foldCase right

section Sorted

variable (ranks : spaces.Pairwise fun left right => rank base left < rank base right)

include ranks

theorem nodup_of_ranks : (spaces.map FoldedName.of).Nodup :=
  List.pairwise_map.2 (ranks.imp fun less same => less.ne (rank_eq_iff.2 (beq_iff_eq.2 same)))

theorem arranged_of_ranks : Arranged base spaces := by
  have letters {some : List String} (part : some.Sublist spaces)
      (alike : ∀ left ∈ some, ∀ right ∈ some, group base left = group base right) :
      some.Pairwise fun left right => foldCase left < foldCase right :=
    (ranks.sublist part).imp_of_mem fun {left right} isLeft isRight less =>
      ((rank_lt_iff.1 less).resolve_left fun below =>
        below.ne (alike left isLeft right isRight)).2
  have groups : spaces.Pairwise fun left right => group base left ≤ group base right :=
    ranks.imp fun less => (rank_lt_iff.1 less).elim Nat.le_of_lt fun same => same.1.le
  have inGroup {number : ℕ} {space : String}
      (listed : space ∈ spaces.filter (group base · == number)) : group base space = number :=
    beq_iff_eq.1 (List.mem_filter.1 listed).2
  refine ⟨_, _, _, eq_groups groups, ?_, fun space isOwn => group_eq_zero.1 (inGroup isOwn),
    fun space isNear => group_eq_one.1 (inGroup isNear),
    fun space isRest => group_eq_two.1 (inGroup isRest),
    letters List.filter_sublist fun left isLeft right isRight =>
      (inGroup isLeft).trans (inGroup isRight).symm,
    letters List.filter_sublist fun left isLeft right isRight =>
      (inGroup isLeft).trans (inGroup isRight).symm⟩
  -- all of the first group are one name
  have once : ((spaces.filter (group base · == 0)).map FoldedName.of).Nodup :=
    (nodup_of_ranks ranks).sublist (List.filter_sublist.map _)
  have few : (spaces.filter (group base · == 0)).map FoldedName.of ⊆ [FoldedName.of base] := by
    intro name listed
    obtain ⟨space, isOwn, rfl⟩ := List.mem_map.1 listed
    exact List.mem_singleton.2 (beq_iff_eq.1 (group_eq_zero.1 (inGroup isOwn)))
  simpa using once.length_le_of_subset few

end Sorted

end Imports

/-- The external types that a node touches, by its own type or by what it stands for. -/
inductive Notes.Touches (symbols : SymbolTable) (notes : Notes) (id : NodeId) : ExternalType → Prop where
  | descriptor {type : ExternalType} {rank : Nat} {nullable : Bool}
      (noted : notes.descriptor? id = some (.type { base := .external type, rank, nullable })) :
      Touches symbols notes id type
  | constant {print : Fingerprint} {constant : SymbolConstant}
      (bound : notes.binding? id = some (.constant print))
      (known : symbols.constants[print]? = some constant) : Touches symbols notes id constant.owner
  | function {print : Fingerprint} {function : SymbolFunction}
      (bound : notes.binding? id = some (.function print))
      (known : symbols.functions[print]? = some function) : Touches symbols notes id function.owner
  | member {print : Fingerprint} {member : SymbolMember} {owner : ExternalType}
      (bound : notes.binding? id = some (.external print))
      (known : symbols.members[print]? = some member) (owns : symbols.type? member.owner = some owner) :
      Touches symbols notes id owner
  | err {type : ExternalType} (bound : notes.binding? id = some (.special .err))
      (known : symbols.errorType = some type) : Touches symbols notes id type
  | application {type : ExternalType} (bound : notes.binding? id = some (.special .application))
      (known : symbols.applicationType = some type) : Touches symbols notes id type
  | form {type : ExternalType} (bound : notes.binding? id = some .form)
      (known : symbols.formType = some type) : Touches symbols notes id type
  | formMember {name : String} {type : ExternalType}
      (bound : notes.binding? id = some (.formMember name)) (known : symbols.formType = some type) :
      Touches symbols notes id type

namespace Draft

variable (draft : Draft) (script : ScriptId) (symbols : SymbolTable) (base : String)

def touched : List ExternalType :=
  draft.nodes.flatMap fun node =>
    ((draft.notes.descriptor? node.id).bind Descriptor.external?).toList
      ++ ((draft.notes.binding? node.id).bind symbols.ownerOf?).toList

theorem mem_touched {type : ExternalType} : type ∈ draft.touched symbols ↔
    ∃ node ∈ draft.root.descendants, draft.notes.Touches symbols node.id type := by
  unfold touched
  rw [List.mem_flatMap]
  refine exists_congr fun node => and_congr_right fun _ => ?_
  rw [List.mem_append, Option.mem_toList, Option.mem_toList, Option.bind_eq_some_iff,
    Option.bind_eq_some_iff]
  constructor
  · rintro (⟨descriptor, noted, isType⟩ | ⟨binding, bound, owns⟩)
    · unfold Descriptor.external? at isType
      split at isType
      · obtain rfl := Option.some.inj isType
        exact .descriptor noted
      · exact nomatch isType
    · unfold SymbolTable.ownerOf? at owns
      split at owns
      · obtain ⟨constant, known, rfl⟩ := Option.map_eq_some_iff.1 owns
        exact .constant bound known
      · obtain ⟨function, known, rfl⟩ := Option.map_eq_some_iff.1 owns
        exact .function bound known
      · obtain ⟨member, known, owns⟩ := Option.bind_eq_some_iff.1 owns
        exact .member bound known owns
      · unfold SymbolTable.specialType? at owns
        split at owns
        · exact .err bound owns
        · exact .application bound owns
        · exact nomatch owns
      · exact .form bound owns
      · exact .formMember bound owns
      · exact nomatch owns
  · rintro (noted | ⟨bound, known⟩ | ⟨bound, known⟩ | ⟨bound, known, owns⟩ | ⟨bound, known⟩ |
      ⟨bound, known⟩ | ⟨bound, known⟩ | ⟨bound, known⟩)
    · exact .inl ⟨_, noted, rfl⟩
    · exact .inr ⟨_, bound, Option.map_eq_some_iff.2 ⟨_, known, rfl⟩⟩
    · exact .inr ⟨_, bound, Option.map_eq_some_iff.2 ⟨_, known, rfl⟩⟩
    · exact .inr ⟨_, bound, Option.bind_eq_some_iff.2 ⟨_, known, owns⟩⟩
    · exact .inr ⟨_, bound, known⟩
    · exact .inr ⟨_, bound, known⟩
    · exact .inr ⟨_, bound, known⟩
    · exact .inr ⟨_, bound, known⟩

theorem mem_externalTypes {type : ExternalType} : type ∈ draft.externalTypes symbols ↔
    (draft.touched symbols).find? (·.print == type.print) = some type :=
  mem_eraseDupsBy ExternalType.print

/-- The namespaces that a draft needs: those of the types that it uses, that of dates, and the base
namespace for what other scripts of the batch declare. -/
inductive Needs : String → Prop where
  | type {type : ExternalType}
      (first : (draft.touched symbols).find? (·.print == type.print) = some type) : Needs type.space
  | dateTime {node : Node} {rank : Nat} {nullable : Bool} (inside : node ∈ draft.root.descendants)
      (noted : draft.notes.descriptor? node.id =
        some (.type { base := .primitive .dateTime, rank, nullable })) : Needs "System"
  | script {node : Node} {decl : DeclRef} {name : String} {rank : Nat} {nullable : Bool}
      (inside : node ∈ draft.root.descendants) (noted : draft.notes.descriptor? node.id =
        some (.type { base := .script decl name, rank, nullable })) (other : decl.script ≠ script) :
      Needs base
  | dependency {node : Node} {decl : DeclRef} (inside : node ∈ draft.root.descendants)
      (bound : draft.notes.binding? node.id = some (.dependency decl)) : Needs base

theorem mem_nodeNamespaces {id : NodeId} {space : String} :
    space ∈ draft.nodeNamespaces script base id ↔
      (∃ rank nullable, draft.notes.descriptor? id =
        some (.type { base := .primitive .dateTime, rank, nullable }) ∧ space = "System") ∨
      (∃ decl name rank nullable, draft.notes.descriptor? id =
        some (.type { base := .script decl name, rank, nullable }) ∧ decl.script ≠ script ∧
          space = base) ∨
      ∃ decl, draft.notes.binding? id = some (.dependency decl) ∧ space = base := by
  unfold nodeNamespaces
  rw [List.mem_append, ← or_assoc]
  refine or_congr ?_ ?_
  · cases draft.notes.descriptor? id with
    | none => simp
    | some descriptor =>
      cases descriptor with
      | type type =>
        rcases type with ⟨base | base | ⟨decl, name⟩, rank, nullable⟩
        · cases base <;> simp [Primitive.namespace?]
        · simp
        · by_cases own : decl.script = script <;> simp [own]
      | _ => simp
  · cases draft.notes.binding? id with
    | none => simp
    | some binding => cases binding <;> simp

def demand : List String :=
  (draft.externalTypes symbols).map (·.space) ++
    draft.nodes.flatMap fun node => draft.nodeNamespaces script base node.id

theorem mem_demand {space : String} :
    space ∈ draft.demand script symbols base ↔ draft.Needs script symbols base space := by
  rw [demand, List.mem_append, List.mem_map, List.mem_flatMap]
  constructor
  · rintro (⟨type, used, rfl⟩ | ⟨node, inside, listed⟩)
    · exact .type ((draft.mem_externalTypes symbols).1 used)
    · rcases (draft.mem_nodeNamespaces script base).1 listed with ⟨rank, nullable, noted, rfl⟩ |
        ⟨decl, name, rank, nullable, noted, other, rfl⟩ | ⟨decl, bound, rfl⟩
      · exact .dateTime inside noted
      · exact .script inside noted other
      · exact .dependency inside bound
  · rintro (first | ⟨inside, noted⟩ | ⟨inside, noted, other⟩ | ⟨inside, bound⟩)
    · exact .inl ⟨_, (draft.mem_externalTypes symbols).2 first, rfl⟩
    · exact .inr ⟨_, inside, (draft.mem_nodeNamespaces script base).2 (.inl ⟨_, _, noted, rfl⟩)⟩
    · exact .inr ⟨_, inside, (draft.mem_nodeNamespaces script base).2
        (.inr (.inl ⟨_, _, _, _, noted, other, rfl⟩))⟩
    · exact .inr ⟨_, inside, (draft.mem_nodeNamespaces script base).2 (.inr (.inr ⟨_, bound, rfl⟩))⟩

theorem namespaces_imports : (draft.imports script symbols base).namespaces =
    (((draft.demand script symbols base).filter (!·.isEmpty)).eraseDupsBy sameName).mergeSort
      (Imports.le base) := rfl

theorem map_namespaces_perm : ((draft.imports script symbols base).namespaces.map FoldedName.of).Perm
    (((draft.demand script symbols base).filter (!·.isEmpty)).map FoldedName.of).eraseDups := by
  rw [← map_eraseDupsBy, namespaces_imports]
  exact (List.mergeSort_perm ..).map _

theorem mem_map_namespaces {name : FoldedName} :
    name ∈ (draft.imports script symbols base).namespaces.map FoldedName.of ↔
      ∃ space, draft.Needs script symbols base space ∧ space ≠ "" ∧ FoldedName.of space = name := by
  rw [(draft.map_namespaces_perm script symbols base).mem_iff, List.mem_eraseDups, List.mem_map]
  refine exists_congr fun space => ?_
  rw [List.mem_filter, mem_demand, and_assoc, Bool.not_eq_true', ← Bool.not_eq_true,
    String.isEmpty_iff]

theorem needs_of_mem {space : String}
    (listed : space ∈ (draft.imports script symbols base).namespaces) :
    draft.Needs script symbols base space ∧ space ≠ "" := by
  have first := (mem_eraseDupsBy FoldedName.of).1 (List.mem_mergeSort.1 listed)
  obtain ⟨needed, filled⟩ := List.mem_filter.1 (List.mem_of_find?_eq_some first)
  exact ⟨(draft.mem_demand script symbols base).1 needed, by simpa using filled⟩

theorem ranks_namespaces : (draft.imports script symbols base).namespaces.Pairwise fun left right =>
    Imports.rank base left < Imports.rank base right := by
  have once : ((draft.imports script symbols base).namespaces.map FoldedName.of).Nodup :=
    (draft.map_namespaces_perm script symbols base).nodup_iff.2 (eraseDups_nodup _)
  refine ((Imports.pairwise_sorted base _).and (List.pairwise_map.1 once)).imp ?_
  rintro left right ⟨before, differs⟩
  refine (Imports.le_iff.1 before).resolve_right fun same => differs ?_
  exact beq_iff_eq.1 (Imports.rank_eq_iff.1 same.1)

variable {draft script symbols base}

theorem map_namespaces_congr {other : Draft}
    (same : ∀ name, name ∈ (draft.imports script symbols base).namespaces.map FoldedName.of ↔
      name ∈ (other.imports script symbols base).namespaces.map FoldedName.of) :
    (draft.imports script symbols base).namespaces.map FoldedName.of =
      (other.imports script symbols base).namespaces.map FoldedName.of := by
  have ranks := draft.ranks_namespaces script symbols base
  have ranks' := other.ranks_namespaces script symbols base
  let before (first second : FoldedName) : Prop := ∃ left right, FoldedName.of left = first ∧
    FoldedName.of right = second ∧ Imports.rank base left < Imports.rank base right
  have sorted {spaces : List String}
      (ranks : spaces.Pairwise fun left right => Imports.rank base left < Imports.rank base right) :
      (spaces.map FoldedName.of).Pairwise before :=
    List.pairwise_map.2 (ranks.imp fun less => ⟨_, _, rfl, rfl, less⟩)
  refine List.Perm.eq_of_pairwise ?_ (sorted ranks) (sorted ranks')
    ((List.perm_ext_iff_of_nodup (Imports.nodup_of_ranks ranks) (Imports.nodup_of_ranks ranks')).2 same)
  rintro first second - - ⟨left, right, rfl, rfl, less⟩ ⟨left', right', same, same', more⟩
  rw [Imports.rank_eq_iff.2 (beq_iff_eq.2 same), Imports.rank_eq_iff.2 (beq_iff_eq.2 same')] at more
  exact absurd (less.trans more) (lt_irrefl _)

def SpacesAgree (draft : Draft) (symbols : SymbolTable) : Prop :=
  ∀ first ∈ draft.touched symbols, ∀ second ∈ draft.touched symbols, first.print = second.print →
    sameName first.space second.space

theorem SpacesAgree.needs (agree : draft.SpacesAgree symbols) {type : ExternalType}
    (touches : type ∈ draft.touched symbols) :
    ∃ space, draft.Needs script symbols base space ∧ FoldedName.of space = FoldedName.of type.space := by
  have isFound : ((draft.touched symbols).find? (·.print == type.print)).isSome :=
    List.find?_isSome.2 ⟨type, touches, beq_self_eq_true _⟩
  obtain ⟨first, found⟩ := Option.isSome_iff_exists.1 isFound
  have same : first.print = type.print := by simpa using List.find?_some found
  have isFirst := found
  rw [← same] at isFirst
  exact ⟨first.space, .type isFirst,
    beq_iff_eq.1 (agree first (List.mem_of_find?_eq_some found) type touches same)⟩

theorem filled_of_same {left right : String} (same : FoldedName.of left = FoldedName.of right)
    (filled : right ≠ "") : left ≠ "" := by
  rintro rfl
  have lengths := congrArg (·.text.toList.length) same
  simp only [FoldedName.of, String.toList_map, List.length_map] at lengths
  exact filled (String.toList_eq_nil_iff.1 (List.length_eq_zero_iff.1 lengths.symm))

end Draft

inductive Node.Reordered : Node → Node → Prop where
  | same {node : Node} : Reordered node node
  | block {node : Node} {stmts stmts' : List Node} (shape : node.shape = .block stmts)
      (perm : stmts'.Perm stmts) : Reordered node (node.withShape (.block stmts'))
  | parts {node : Node} {f : Node → Node} (parts : ∀ part ∈ node.children, Reordered part (f part)) :
      Reordered node (node.withParts f)
  | trans {first second third : Node} (before : Reordered first second)
      (after : Reordered second third) : Reordered first third

theorem Node.Reordered.ids {node other : Node} (reordered : node.Reordered other) :
    (other.descendants.map Node.id).Perm (node.descendants.map Node.id) := by
  induction reordered with
  | same => exact .rfl
  | @block node stmts stmts' shape perm =>
    rw [descendants_eq, descendants_eq node, Node.children, Node.children, shape]
    exact ((perm.flatMap_right Node.descendants).map Node.id).cons _
  | @parts node f _ ih =>
    rw [descendants_eq, descendants_eq node, children_withParts, List.flatMap_map, List.map_cons,
      List.map_cons, List.map_flatMap, List.map_flatMap]
    exact (List.Perm.flatMap_left _ ih).cons _
  | trans _ _ before after => exact after.trans before

namespace Draft

variable {draft other : Draft} {script : ScriptId} {symbols : SymbolTable} {base : String}

/-- Everything that is known of the nodes of one draft is known of nodes of the other. -/
structure Within (draft other : Draft) : Prop where
  notes : other.notes = draft.notes
  nodes : ∀ node ∈ draft.root.descendants, ∃ same ∈ other.root.descendants, same.id = node.id

namespace Within

theorem touched (within : draft.Within other) {type : ExternalType}
    (touches : type ∈ draft.touched symbols) : type ∈ other.touched symbols := by
  obtain ⟨node, inside, touches⟩ := (draft.mem_touched symbols).1 touches
  obtain ⟨same, also, isSame⟩ := within.nodes node inside
  refine (other.mem_touched symbols).2 ⟨same, also, ?_⟩
  rwa [within.notes, isSame]

theorem needs (within : draft.Within other) (agree : other.SpacesAgree symbols) {space : String}
    (needs : draft.Needs script symbols base space) :
    ∃ also, other.Needs script symbols base also ∧ FoldedName.of also = FoldedName.of space := by
  cases needs with
  | type first => exact agree.needs (within.touched (List.mem_of_find?_eq_some first))
  | dateTime inside noted =>
    obtain ⟨same, also, isSame⟩ := within.nodes _ inside
    exact ⟨_, .dateTime also (by rwa [within.notes, isSame]), rfl⟩
  | script inside noted differs =>
    obtain ⟨same, also, isSame⟩ := within.nodes _ inside
    exact ⟨_, .script also (by rwa [within.notes, isSame]) differs, rfl⟩
  | dependency inside bound =>
    obtain ⟨same, also, isSame⟩ := within.nodes _ inside
    exact ⟨_, .dependency also (by rwa [within.notes, isSame]), rfl⟩

theorem mem_map (within : draft.Within other) (agree : other.SpacesAgree symbols) {name : FoldedName}
    (listed : name ∈ (draft.imports script symbols base).namespaces.map FoldedName.of) :
    name ∈ (other.imports script symbols base).namespaces.map FoldedName.of := by
  obtain ⟨space, needed, filled, rfl⟩ := (draft.mem_map_namespaces script symbols base).1 listed
  obtain ⟨also, needs, same⟩ := within.needs agree needed
  exact (other.mem_map_namespaces script symbols base).2 ⟨also, needs, filled_of_same same filled, same⟩

end Within

/-- Where types that are told apart by nothing are in one namespace, the order of the statements decides
no more than how a namespace is spelt. -/
theorem SpacesAgree.reordered (agree : draft.SpacesAgree symbols) {root : Node}
    (reordered : draft.root.Reordered root) :
    ({ draft with root }.imports script symbols base).namespaces.map FoldedName.of =
      (draft.imports script symbols base).namespaces.map FoldedName.of := by
  have nodes {first second : Node}
      (perm : (second.descendants.map Node.id).Perm (first.descendants.map Node.id)) :
      ∀ node ∈ first.descendants, ∃ same ∈ second.descendants, same.id = node.id :=
    fun node inside => List.mem_map.1 (perm.mem_iff.2 (List.mem_map.2 ⟨node, inside, rfl⟩))
  have onward : draft.Within { draft with root } := ⟨rfl, nodes reordered.ids⟩
  have back : Within { draft with root } draft := ⟨rfl, nodes reordered.ids.symm⟩
  have agree' : SpacesAgree { draft with root } symbols := fun first touches second also =>
    agree first (back.touched touches) second (back.touched also)
  exact map_namespaces_congr fun name => ⟨back.mem_map agree, onward.mem_map agree'⟩

def innerType : ExternalType where
  space := "A.B"
  name := "C"
  assembly := { name := "Custom" }

def outerType : ExternalType where
  space := "A"
  name := "B.C"
  assembly := { name := "Custom" }

def otherType : ExternalType where
  space := "Lib"
  name := "C"
  assembly := { name := "Custom" }

namespace CallsConstants

variable {draft : Draft} {script : ScriptId} {symbols : SymbolTable} {base : String}
  {constants constants' : List SymbolConstant}

theorem bindings (calls : draft.CallsConstants script constants) :
    draft.nodes.filterMap (draft.notes.binding? ·.id) = constants.map fun constant =>
      .constant constant.print := by
  obtain ⟨method, body, stmts, runs, unbound, bound⟩ := calls.runs
  have each : stmts.flatMap (fun stmt => stmt.descendants.filterMap (draft.notes.binding? ·.id)) =
      constants.map fun constant => .constant constant.print := by
    clear runs calls
    induction bound with
    | nil => rfl
    | cons stmt _ ih =>
      rw [List.flatMap_cons, stmt, ih]
      rfl
  rw [Module.nodes, runs.descendants_eq]
  simp only [List.forall_mem_cons, List.not_mem_nil, false_imp_iff, implies_true, and_true] at unbound
  simp [unbound, List.filterMap_flatMap, each]

theorem touched_eq (calls : draft.CallsConstants script constants)
    (known : ∀ constant ∈ constants, symbols.constants[constant.print]? = some constant) :
    draft.touched symbols = constants.map (·.owner) := by
  have types (node : Node) : (draft.notes.descriptor? node.id).bind Descriptor.external? = none :=
    Option.bind_eq_none_iff.2 fun descriptor noted => (calls.plain _ descriptor noted).external?
  have owners : draft.touched symbols =
      (draft.nodes.filterMap (draft.notes.binding? ·.id)).filterMap symbols.ownerOf? := by
    rw [List.filterMap_filterMap, List.filterMap_eq_flatMap_toList, touched]
    simp [types]
  rw [owners, calls.bindings, List.filterMap_map]
  refine List.filterMap_eq_map_iff_forall_eq_some.2 fun constant isConstant => ?_
  rw [Function.comp_apply, SymbolTable.ownerOf?, known constant isConstant]
  rfl

theorem demand_eq (calls : draft.CallsConstants script constants) :
    draft.demand script symbols base = (draft.externalTypes symbols).map (·.space) := by
  have plain : (draft.nodes.flatMap fun node => draft.nodeNamespaces script base node.id) = [] := by
    refine List.flatMap_eq_nil_iff.2 fun node inside => ?_
    refine List.eq_nil_iff_forall_not_mem.2 fun space listed => ?_
    rcases (draft.mem_nodeNamespaces script base).1 listed with ⟨rank, nullable, noted, -⟩ |
      ⟨decl, name, rank, nullable, noted, other, -⟩ | ⟨decl, bound, -⟩
    · exact nomatch calls.plain _ _ noted
    · exact other (calls.plain _ _ noted)
    · have among : Binding.dependency decl ∈ draft.nodes.filterMap (draft.notes.binding? ·.id) :=
        List.mem_filterMap.2 ⟨node, inside, bound⟩
      rw [calls.bindings] at among
      obtain ⟨constant, -, differs⟩ := List.mem_map.1 among
      exact nomatch differs
  rw [demand, plain, List.append_nil]

theorem reorder (calls : draft.CallsConstants script constants) (perm : constants.Perm constants') :
    ∃ root, draft.root.Reordered root ∧ CallsConstants { draft with root } script constants' := by
  obtain ⟨method, body, stmts, runs, unbound, bound⟩ := calls.runs
  have ordered : Relation.Comp (List.Forall₂ _) List.Perm stmts constants' := ⟨constants, bound, perm⟩
  rw [List.forall₂_comp_perm_eq_perm_comp_forall₂] at ordered
  obtain ⟨stmts', same, bound'⟩ := ordered
  have ofBody : body.Reordered (body.withShape (.block stmts')) := .block runs.shape same.symm
  have ofMethod : method.Reordered (method.withParts fun _ => body.withShape (.block stmts')) :=
    .parts fun part isPart => by
      rw [runs.isBody, List.mem_singleton] at isPart
      exact isPart ▸ ofBody
  have ofRoot : draft.root.Reordered (draft.root.withParts fun _ =>
      method.withParts fun _ => body.withShape (.block stmts')) :=
    .parts fun part isPart => by
      rw [runs.isMethod, List.mem_singleton] at isPart
      exact isPart ▸ ofMethod
  refine ⟨_, ofRoot, calls.plain, method.withParts fun _ => body.withShape (.block stmts'),
    body.withShape (.block stmts'), stmts', ⟨?_, ?_, body.shape_withShape _⟩, unbound, bound'⟩
  · rw [Node.children_withParts, runs.isMethod, List.map_singleton]
  · rw [Node.children_withParts, runs.isBody, List.map_singleton]

/-- Of two types that are told apart by nothing, the namespace of the one that is used first is the only
import. -/
theorem namespaces_eq {used other : ExternalType}
    (calls : draft.CallsConstants script constants) (touches : draft.touched symbols = [used, other])
    (same : other.print = used.print) (filled : used.space ≠ "") :
    (draft.imports script symbols base).namespaces = [used.space] := by
  have types : draft.externalTypes symbols = [used] := by
    have only : (other == used) = true := by
      change (other.print == used.print) = true
      exact beq_iff_eq.2 same
    rw [externalTypes]
    refine (congrArg List.eraseDups touches).trans ?_
    simp [List.eraseDups_cons, only]
  rw [namespaces_imports, calls.demand_eq, types]
  simp [filled, List.eraseDupsBy_cons]

end CallsConstants

def numbers (owners : List (String × ExternalType)) : List SymbolConstant :=
  owners.map fun (name, owner) => { name, owner, value := .ofPrimitive .int32 }

theorem plain_numbers (script : ScriptId) (owners : List (String × ExternalType)) :
    ∀ constant ∈ numbers owners, constant.value.IsPlain script := by
  intro constant listed
  obtain ⟨_, -, rfl⟩ := List.mem_map.1 listed
  rfl

theorem map_print_numbers (owners : List (String × ExternalType)) :
    (numbers owners).map SymbolConstant.print = (owners.map Prod.fst).map .ofGlobal := by
  simp [numbers, SymbolConstant.print]

def twoNamesText : String := "Public Sub S()\n c1\n c2\nEnd Sub\n"

theorem calls_twoNames :
    (parseModule twoNamesText "M").toOption.any (·.root.calls ["c1", "c2"]) := by
  decide +kernel

def twoNumbers (first second : ExternalType) : List SymbolConstant :=
  numbers [("c1", first), ("c2", second)]

def twoNamesTable (first second : ExternalType) : SymbolTable := .listing [] (twoNumbers first second)

theorem exists_twoNames (first second : ExternalType) : ∃ module resolved root,
    parseModule twoNamesText "M" = .ok module ∧
    ((ScriptStore.alone module).resolve (twoNamesTable first second) {} (.withCapacity 8) ⟨0⟩).store.draft?
      ⟨0⟩ = some resolved ∧
    resolved.CallsConstants ⟨0⟩ (twoNumbers first second) ∧
    resolved.touched (twoNamesTable first second) = [first, second] ∧
    resolved.root.Reordered root ∧
    CallsConstants { resolved with root } ⟨0⟩ (twoNumbers first second).reverse ∧
    touched { resolved with root } (twoNamesTable first second) = [second, first] := by
  have names : ((twoNumbers first second).map SymbolConstant.print).Nodup := by
    rw [twoNumbers, map_print_numbers]
    change [Fingerprint.ofGlobal "c1", .ofGlobal "c2"].Nodup
    decide +kernel
  have apart : (([] : List ExternalType).map ExternalType.print).Nodup := List.nodup_nil
  have known : ∀ constant ∈ twoNumbers first second,
      (twoNamesTable first second).constants[constant.print]? = some constant :=
    fun _ => SymbolTable.constant?_listing apart names
  obtain ⟨module, resolved, parsed, found, calls⟩ := ScriptStore.exists_calls [] (twoNumbers first second)
    calls_twoNames apart names (plain_numbers _ _)
  obtain ⟨root, reordered, calls'⟩ := calls.reorder (List.reverse_perm _).symm
  exact ⟨module, resolved, root, parsed, found, calls, calls.touched_eq known, reordered, calls',
    calls'.touched_eq fun constant listed => known constant (List.mem_reverse.1 listed)⟩

/-- The imports of a draft are the namespaces that it needs, each once however it is spelt, and arranged
around the base namespace. Where types that are told apart by nothing are in one namespace, these are
the namespaces of all types that a node touches, and another order of the statements changes no more
than how they are spelt. -/
theorem imports_arranged (draft : Draft) (script : ScriptId) (symbols : SymbolTable) (base : String) :
    (∀ space ∈ (draft.imports script symbols base).namespaces,
      draft.Needs script symbols base space ∧ space ≠ "") ∧
    (∀ space, draft.Needs script symbols base space → space ≠ "" →
      ∃ listed ∈ (draft.imports script symbols base).namespaces, sameName listed space) ∧
    ((draft.imports script symbols base).namespaces.map FoldedName.of).Nodup ∧
    Imports.Arranged base (draft.imports script symbols base).namespaces ∧
    (draft.SpacesAgree symbols →
      (∀ node ∈ draft.root.descendants, ∀ type, draft.notes.Touches symbols node.id type →
        type.space ≠ "" →
        ∃ listed ∈ (draft.imports script symbols base).namespaces, sameName listed type.space) ∧
      ∀ root, draft.root.Reordered root →
        ({ draft with root }.imports script symbols base).namespaces.map FoldedName.of =
          (draft.imports script symbols base).namespaces.map FoldedName.of) := by
  have ranks := draft.ranks_namespaces script symbols base
  have lists {space other : String} (needs : draft.Needs script symbols base other)
      (filled : other ≠ "") (same : FoldedName.of other = FoldedName.of space) :
      ∃ listed ∈ (draft.imports script symbols base).namespaces, sameName listed space := by
    have among := (draft.mem_map_namespaces script symbols base).2 ⟨other, needs, filled, same⟩
    obtain ⟨listed, isListed, spelt⟩ := List.mem_map.1 among
    exact ⟨listed, isListed, beq_iff_eq.2 spelt⟩
  refine ⟨fun space => draft.needs_of_mem script symbols base,
    fun space needs filled => lists needs filled rfl, Imports.nodup_of_ranks ranks,
    Imports.arranged_of_ranks ranks, fun agree => ⟨fun node inside type touches filled => ?_,
      fun root => agree.reordered⟩⟩
  obtain ⟨space, needs, same⟩ := agree.needs ((draft.mem_touched symbols).2 ⟨node, inside, touches⟩)
  exact lists needs (filled_of_same same filled) same

/-- Types with prints of their own need not be in one namespace, and each is imported from its own,
whatever the order of the statements. -/
theorem imports_arranged_two : ∃ module resolved root,
    parseModule twoNamesText "M" = .ok module ∧
    ((ScriptStore.alone module).resolve (twoNamesTable innerType otherType) {} (.withCapacity 8)
      ⟨0⟩).store.draft? ⟨0⟩ = some resolved ∧
    resolved.SpacesAgree (twoNamesTable innerType otherType) ∧
    (∃ listed ∈ (resolved.imports ⟨0⟩ (twoNamesTable innerType otherType) "Lib").namespaces,
      sameName listed "A.B") ∧
    resolved.root.Reordered root ∧ resolved.root ≠ root ∧
    ({ resolved with root }.imports ⟨0⟩ (twoNamesTable innerType otherType) "Lib").namespaces.map
        FoldedName.of =
      (resolved.imports ⟨0⟩ (twoNamesTable innerType otherType) "Lib").namespaces.map FoldedName.of := by
  obtain ⟨module, resolved, root, parsed, found, calls, touches, reordered, calls', touches'⟩ :=
    exists_twoNames innerType otherType
  have agree : resolved.SpacesAgree (twoNamesTable innerType otherType) := by
    rw [SpacesAgree, touches]
    decide +kernel
  obtain ⟨-, -, -, -, arranged⟩ :=
    imports_arranged resolved ⟨0⟩ (twoNamesTable innerType otherType) "Lib"
  obtain ⟨node, inside, isInner⟩ := (mem_touched _ _).1 (touches ▸ List.mem_cons_self)
  refine ⟨module, resolved, root, parsed, found, agree,
    (arranged agree).1 node inside innerType isInner (by decide), reordered, ?_,
    (arranged agree).2 root reordered⟩
  rintro rfl
  have spaces := congrArg (List.map ExternalType.space) (touches.symm.trans touches')
  exact absurd spaces (by decide)

/-- Where types that are told apart by nothing are in different namespaces, that of the second is not
imported, and another order of the statements changes the imports. -/
theorem imports_colliding : ∃ module resolved root,
    parseModule twoNamesText "M" = .ok module ∧
    ((ScriptStore.alone module).resolve (twoNamesTable innerType outerType) {} (.withCapacity 8)
      ⟨0⟩).store.draft? ⟨0⟩ = some resolved ∧
    (∃ node ∈ resolved.root.descendants,
      resolved.notes.Touches (twoNamesTable innerType outerType) node.id outerType ∧
      outerType.space ≠ "" ∧
      ∀ listed ∈ (resolved.imports ⟨0⟩ (twoNamesTable innerType outerType)
        "Migrated").namespaces, ¬ sameName listed outerType.space) ∧
    resolved.root.Reordered root ∧
    ({ resolved with root }.imports ⟨0⟩ (twoNamesTable innerType outerType) "Migrated").namespaces.map
        FoldedName.of ≠
      (resolved.imports ⟨0⟩ (twoNamesTable innerType outerType) "Migrated").namespaces.map
        FoldedName.of := by
  have same : innerType.print = outerType.print := by decide +kernel
  obtain ⟨module, resolved, root, parsed, found, calls, touches, reordered, calls', touches'⟩ :=
    exists_twoNames innerType outerType
  refine ⟨module, resolved, root, parsed, found, ?_, reordered, ?_⟩
  · obtain ⟨node, inside, isOuter⟩ :=
      (mem_touched _ _).1 (touches ▸ List.mem_cons_of_mem _ List.mem_cons_self)
    rw [calls.namespaces_eq touches same.symm (by decide)]
    exact ⟨node, inside, isOuter, by decide, by decide +kernel⟩
  · rw [calls.namespaces_eq touches same.symm (by decide),
      calls'.namespaces_eq touches' same (by decide)]
    decide +kernel

end Draft

end ScriptMigration
