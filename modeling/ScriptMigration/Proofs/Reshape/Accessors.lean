import ScriptMigration.Proofs.Draft.Prepared
import ScriptMigration.Proofs.Grammar.Termination
import ScriptMigration.Proofs.Syntax.TypePasses

/-! What becomes of the accessors of a type. The first accessor of a name leaves its place to the
property of that name, the first of each kind goes into the property, and all else stays. -/
namespace ScriptMigration

namespace Property

variable {name : String} {members earlier rest : List Node} {member : Node}
  {newId : NodeId → NodeId}

/-- Whether a member is the first accessor of its name and kind. -/
def isFirst (members : List Node) (member : Node) : Bool :=
  (key? member).any fun key => (members.find? (key? · == some key)).any (·.id == member.id)

/-- Whether a member is the first accessor of its name. -/
def leads (members : List Node) (member : Node) : Bool :=
  (key? member).any fun key => (members.find? (belongs key.1)).any (·.id == member.id)

/-- What stands in the place of a member: the property of the first accessor of a name, any other
accessor itself, and the image of all else. -/
def replaced (newId : NodeId → NodeId) (image : Node → Node) (members : List Node) (member : Node) :
    Node :=
  match accessor? member with
  | some decl => if leads members member then gather (newId member.id) decl.name members else member
  | none => image member

def stays (members : List Node) (member : Node) : Bool :=
  !isFirst members member || leads members member

theorem find?_split {test : Node → Bool} (own : test member)
    (once : ((earlier ++ member :: rest).map Node.id).Nodup) :
    ((earlier ++ member :: rest).find? test).any (·.id == member.id) = !earlier.any test := by
  rw [List.find?_append, List.find?_cons_of_pos own]
  cases found : earlier.find? test with
  | none =>
    have none : earlier.any test = false := by
      simpa only [List.any_eq_false, Bool.not_eq_true] using List.find?_eq_none.1 found
    simp [none]
  | some other =>
    have listed := List.mem_of_find?_eq_some found
    have any : earlier.any test := List.any_eq_true.2 ⟨other, listed, List.find?_some found⟩
    have differ : other.id ≠ member.id := by
      intro same
      rw [List.map_append, List.nodup_append] at once
      exact once.2.2 _ (List.mem_map_of_mem listed) _ (by simp) same
    simp [any, differ]

theorem isFirst_split (once : ((earlier ++ member :: rest).map Node.id).Nodup) :
    isFirst (earlier ++ member :: rest) member =
      (key? member).any fun key => !earlier.any (key? · == some key) := by
  unfold isFirst
  cases found : key? member with
  | none => rfl
  | some key =>
    rw [Option.any_some, Option.any_some]
    exact find?_split (by simp [found]) once

theorem leads_split (once : ((earlier ++ member :: rest).map Node.id).Nodup) :
    leads (earlier ++ member :: rest) member =
      (key? member).any fun key => !earlier.any (belongs key.1) := by
  unfold leads
  cases found : key? member with
  | none => rfl
  | some key =>
    rw [Option.any_some, Option.any_some]
    exact find?_split (by simp [belongs, found]) once

theorem gather_append (id : NodeId) (foreign : earlier.any (belongs (.of name)) = false) :
    gather id name (earlier ++ members) = gather id name members := by
  have slots (kind : MethodKind) :
      slot? name kind (earlier ++ members) = slot? name kind members := by
    have none : earlier.find? (key? · == some (.of name, kind)) = none := by
      rw [List.find?_eq_none]
      intro member listed isKey
      rw [List.any_eq_false] at foreign
      exact foreign member listed (by simp [belongs, eq_of_beq isKey])
    rw [slot?_eq, slot?_eq, List.find?_append, none, Option.none_or]
  have placed : isPlaced name (earlier ++ members) = isPlaced name members := by
    funext member
    simp only [isPlaced, slots]
  have none : earlier.filter (isPlaced name members) = [] := by
    rw [List.filter_eq_nil_iff]
    intro member listed isPlaced
    rw [List.any_eq_false] at foreign
    apply foreign member listed
    obtain ⟨decl, found, same, -⟩ := by
      simpa only [Property.isPlaced, Option.any_eq_true, Bool.and_eq_true] using isPlaced
    simpa [belongs, key?, found, sameName] using same
  unfold gather
  simp only [slots, placed, List.filter_append, none, List.nil_append]

def Recalls (before : List (FoldedName × MethodKind)) (earlier : List Node) : Prop :=
  ∀ key, key ∈ before ↔ ∃ member ∈ earlier, key? member = some key

namespace Recalls

variable {before : List (FoldedName × MethodKind)} {key : FoldedName × MethodKind}

theorem cons (recalls : Recalls before earlier) (isKey : key? member = some key) :
    Recalls (key :: before) (earlier ++ [member]) := by
  intro other
  have last : key? member = some other ↔ other = key := by simp [isKey, eq_comm]
  simp only [List.mem_cons, recalls other, List.mem_append, List.not_mem_nil, or_false, or_and_right,
    exists_or, exists_eq_left, last]
  exact or_comm

theorem skip (recalls : Recalls before earlier) (known : ∀ key ∈ key? member, key ∈ before) :
    Recalls before (earlier ++ [member]) := by
  intro other
  constructor
  · intro listed
    obtain ⟨source, inside, isKey⟩ := (recalls other).1 listed
    exact ⟨source, List.mem_append_left _ inside, isKey⟩
  · rintro ⟨source, inside, isKey⟩
    rcases List.mem_append.1 inside with among | last
    · exact (recalls other).2 ⟨source, among, isKey⟩
    · obtain rfl := List.mem_singleton.1 last
      exact known other isKey

theorem contains_eq (recalls : Recalls before earlier) (key : FoldedName × MethodKind) :
    before.contains key = earlier.any (key? · == some key) := by
  rw [Bool.eq_iff_iff, List.contains_iff_mem, recalls key, List.any_eq_true]
  simp only [beq_iff_eq]

theorem any_eq (recalls : Recalls before earlier) (name : FoldedName) :
    before.any (·.1 == name) = earlier.any (belongs name) := by
  rw [Bool.eq_iff_iff, List.any_eq_true, List.any_eq_true]
  simp only [recalls _, belongs, Option.any_eq_true]
  constructor
  · rintro ⟨key, ⟨member, listed, isKey⟩, isName⟩
    exact ⟨member, listed, key, isKey, isName⟩
  · rintro ⟨member, listed, key, isKey, isName⟩
    exact ⟨key, ⟨member, listed, isKey⟩, isName⟩

end Recalls

theorem gatherAll_eq (newId : NodeId → NodeId) (before : List (FoldedName × MethodKind))
    (members : List Node) : ∀ earlier, Recalls before earlier →
      ((earlier ++ members).map Node.id).Nodup → gatherAll newId before members =
        (members.filter (stays (earlier ++ members))).map
          (replaced newId id (earlier ++ members)) := by
  fun_induction gatherAll newId before members with
  | case1 => exact fun _ _ _ => rfl
  | case2 before member rest none ih =>
    intro earlier recalls once
    have noKey : key? member = .none := by simp [key?, none]
    have first := isFirst_split once
    rw [noKey, Option.any_none] at first
    have later := ih _ (recalls.skip fun _ isKey => by cases noKey.symm.trans isKey)
      (by simpa using once)
    rw [← List.append_cons] at later
    rw [later, List.filter_cons_of_pos (by simp [stays, first])]
    simp [replaced, none]
  | case3 before member rest decl found key repeated ih =>
    intro earlier recalls once
    have isKey : key? member = some (key, decl.kind) := by simp [key?, found, key]
    have listed := List.contains_iff_mem.1 repeated
    have first := isFirst_split once
    rw [isKey, Option.any_some, ← recalls.contains_eq, repeated] at first
    have lead := leads_split once
    rw [isKey, Option.any_some, ← recalls.any_eq, List.any_eq_true.2 ⟨_, listed, by simp⟩] at lead
    have known : ∀ other ∈ key? member, other ∈ before := by
      intro other same
      rw [isKey] at same
      exact Option.some.inj same ▸ listed
    have later := ih _ (recalls.skip known) (by simpa using once)
    rw [← List.append_cons] at later
    rw [later, List.filter_cons_of_pos (by simp [stays, first])]
    simp [replaced, found, lead]
  | case4 before member rest decl found key new _ taken ih =>
    intro earlier recalls once
    have isKey : key? member = some (key, decl.kind) := by simp [key?, found, key]
    have first := isFirst_split once
    rw [isKey, Option.any_some, ← recalls.contains_eq, Bool.eq_false_iff.2 new] at first
    have lead := leads_split once
    rw [isKey, Option.any_some, ← recalls.any_eq, taken] at lead
    have later := ih _ (recalls.cons isKey) (by simpa using once)
    rw [← List.append_cons] at later
    rw [List.filter_cons_of_neg (by simp [stays, first, lead])]
    exact later
  | case5 before member rest decl found key new _ free ih =>
    intro earlier recalls once
    have isKey : key? member = some (key, decl.kind) := by simp [key?, found, key]
    rw [recalls.any_eq, Bool.not_eq_true] at free
    have lead := leads_split once
    rw [isKey, Option.any_some, free] at lead
    have later := ih _ (recalls.cons isKey) (by simpa using once)
    rw [← List.append_cons] at later
    rw [List.filter_cons_of_pos (by simp [stays, lead]), List.map_cons, ← later]
    simp only [replaced, found, lead, Bool.not_false, if_true, key, gather_append _ free]
    rfl

section Images

variable {g : Node → Node}

variable (kept : ∀ member ∈ members, (g member).id = member.id ∧
  accessor? (g member) = accessor? member ∧ ((accessor? member).isSome → g member = member))

include kept

theorem key?_image (listed : member ∈ members) : key? (g member) = key? member := by
  rw [key?, (kept member listed).2.1, key?]

theorem find?_image (test : FoldedName × MethodKind → Bool) :
    (members.map g).find? (fun member => (key? member).any test) =
      members.find? fun member => (key? member).any test := by
  rw [← List.head?_filter, ← List.head?_filter, Node.filter_image]
  · intro member listed
    rw [key?_image kept listed]
  · intro member listed tested
    obtain ⟨key, isKey, -⟩ := (Option.any_eq_true ..).1 tested
    obtain ⟨decl, isAccessor, -⟩ := Option.map_eq_some_iff.1 isKey
    exact (kept member listed).2.2 (by simp [isAccessor])

theorem find?_key_image (key : FoldedName × MethodKind) :
    (members.map g).find? (key? · == some key) = members.find? (key? · == some key) := by
  have any (member : Node) : (key? member == some key) = (key? member).any (· == key) := by
    cases key? member <;> simp
  simp only [any, find?_image kept]

theorem isFirst_image (listed : member ∈ members) :
    isFirst (members.map g) (g member) = isFirst members member := by
  simp only [isFirst, key?_image kept listed, (kept member listed).1, find?_key_image kept]

theorem leads_image (listed : member ∈ members) :
    leads (members.map g) (g member) = leads members member := by
  have found (name : FoldedName) : (members.map g).find? (belongs name) =
      members.find? (belongs name) := find?_image kept (·.1 == name)
  simp only [leads, key?_image kept listed, (kept member listed).1, found]

theorem gather_image (id : NodeId) (name : String) :
    gather id name (members.map g) = gather id name members := by
  have slots (kind : MethodKind) : slot? name kind (members.map g) = slot? name kind members := by
    rw [slot?_eq, slot?_eq, find?_key_image kept]
  have placed : (members.map g).filter (isPlaced name (members.map g)) =
      members.filter (isPlaced name members) := by
    have same : isPlaced name (members.map g) = isPlaced name members := by
      funext member
      simp only [isPlaced, slots]
    rw [same, Node.filter_image]
    · intro member listed
      simp only [isPlaced, (kept member listed).2.1, (kept member listed).1]
    · intro member listed isPlaced
      obtain ⟨decl, isAccessor, -⟩ := (Option.any_eq_true ..).1 isPlaced
      exact (kept member listed).2.2 (by simp [isAccessor])
  unfold gather
  simp only [slots, placed]

theorem gatherAll_image (newId : NodeId → NodeId) (once : (members.map Node.id).Nodup) :
    gatherAll newId [] (members.map g) =
      (members.filter (stays members)).map (replaced newId g members) := by
  have ids : (members.map g).map Node.id = members.map Node.id := by
    rw [List.map_map]
    exact List.map_congr_left fun member listed => (kept member listed).1
  have stay : members.filter (stays (members.map g) ∘ g) = members.filter (stays members) := by
    apply List.filter_congr
    intro member listed
    simp only [Function.comp_apply, stays, isFirst_image kept listed, leads_image kept listed]
  have whole := gatherAll_eq newId [] (members.map g) [] (by simp [Recalls])
    (by rwa [List.nil_append, ids])
  rw [List.nil_append, List.filter_map, stay, List.map_map] at whole
  rw [whole]
  apply List.map_congr_left
  intro member listed
  obtain ⟨inside, -⟩ := List.mem_filter.1 listed
  obtain ⟨id, same, fixed⟩ := kept member inside
  simp only [Function.comp_apply, replaced, same, leads_image kept inside, id, gather_image kept]
  cases isAccessor : accessor? member with
  | none => rfl
  | some decl => simp [fixed (by simp [isAccessor])]

end Images

def accessorOf? (property : PropertyDecl Node) : MethodKind → Option Node
  | .propertyGet => property.getter
  | .propertyLet => property.letter
  | .propertySet => property.setter
  | _ => none

def name? (node : Node) : Option FoldedName :=
  match node.shape with
  | .property decl => some (.of decl.name)
  | _ => none

theorem countP_property (nodes : List Node) :
    nodes.countP (·.shape.family == .property) = (nodes.filterMap name?).length := by
  rw [List.length_filterMap_eq_countP]
  apply List.countP_congr
  intro node _
  cases shape : node.shape <;> simp [name?, shape, Shape.family, Shape.isExpression]

/-- What stands in the place of a member of a type. -/
inductive Stands (members : List Node) (member : Node) : Node → Prop
  /-- A property for its first accessor. -/
  | property {new : Node} {decl : MethodDecl Node} {property : PropertyDecl Node}
      (leads : leads members member) (isAccessor : accessor? member = some decl)
      (shape : new.shape = .property property) (name : property.name = decl.name) :
      Stands members member new
  | same (other : leads members member = false) : Stands members member member
  /-- A type, whose members are gathered in their turn. -/
  | type {new : Node} (isType : member.shape.isType) (alsoType : new.shape.isType)
      (id : new.id = member.id) : Stands members member new

/-- How the accessors among the members of a type are gathered into properties. -/
structure Gathered (members new : List Node) : Prop where
  /-- The first accessor of a name and kind is no member any more, but the accessor of its kind of one
  property, which has its name. -/
  placed : ∀ before accessor after decl, members = before ++ accessor :: after →
    accessor? accessor = some decl → (∀ earlier ∈ before, key? earlier ≠ key? accessor) →
      accessor ∉ new ∧ ∃ node ∈ new, ∃ property, node.shape = .property property ∧
        sameName property.name decl.name ∧ accessorOf? property decl.kind = some accessor ∧
        ∀ other ∈ new, ∀ property, other.shape = .property property →
          accessor ∈ property.accessors → other = node
  /-- A later accessor of the same name and kind stays a member, and no property has it. -/
  repeated : ∀ before accessor after decl, members = before ++ accessor :: after →
    accessor? accessor = some decl → (∃ earlier ∈ before, key? earlier = key? accessor) →
      accessor ∈ new ∧ ∀ other ∈ new, ∀ property, other.shape = .property property →
        accessor ∉ property.accessors
  /-- All that a property has are accessors of its name, each the first of its kind. -/
  held : ∀ node ∈ new, ∀ property, node.shape = .property property →
    ∀ accessor ∈ property.accessors, accessor ∈ members ∧ belongs (.of property.name) accessor ∧
      isFirst members accessor
  /-- There is one property for each name of accessors. -/
  named : new.filterMap name? = names members
  /-- What stays keeps its order, and a property stands where its first accessor stood. -/
  order : List.Forall₂ (Stands members) (members.filter (stays members)) new
  /-- There are fewer members by the accessors that went into properties, but for the properties. -/
  count : new.length + members.countP (isFirst members) =
    members.length + new.countP (·.shape.family == .property)

theorem isFirst_of_leads (once : (members.map Node.id).Nodup) (listed : member ∈ members)
    (isLead : leads members member) : isFirst members member := by
  obtain ⟨before, after, rfl⟩ := List.append_of_mem listed
  rw [leads_split once] at isLead
  rw [isFirst_split once]
  cases isKey : key? member with
  | none => simp [isKey] at isLead
  | some key =>
    rw [isKey, Option.any_some, Bool.not_eq_true', List.any_eq_false] at isLead
    rw [Option.any_some, Bool.not_eq_true', List.any_eq_false]
    intro earlier comes same
    exact isLead earlier comes (by simp [belongs, eq_of_beq same])

theorem leads_append {other : Node} (listed : other ∈ members) :
    leads (members ++ rest) other = leads members other := by
  unfold leads
  cases found : key? other with
  | none => rfl
  | some key =>
    have isSome : (members.find? (belongs key.1)).isSome := by
      rw [List.find?_isSome]
      exact ⟨other, listed, by simp [belongs, found]⟩
    rw [Option.any_some, Option.any_some, List.find?_append, Option.or_of_isSome isSome]

theorem names_eq_eraseDups (members : List Node) :
    names members = (members.filterMap fun member => (key? member).map Prod.fst).eraseDups := by
  unfold names key?
  simp [List.map_filterMap, Function.comp_def]

theorem names_eq (once : (members.map Node.id).Nodup) :
    names members = (members.filter (leads members)).filterMap fun member =>
      (key? member).map Prod.fst := by
  induction members using List.reverseRecOn with
  | nil => rfl
  | append_singleton before member ih =>
    have split := once
    rw [List.map_append, List.nodup_append] at split
    have earlier : before.filter (leads (before ++ [member])) = before.filter (leads before) :=
      List.filter_congr fun other listed => leads_append listed
    have last := leads_split once
    rw [names_eq_eraseDups, List.filterMap_append, List.eraseDups_append, ← names_eq_eraseDups, ih split.1,
      List.filter_append, List.filterMap_append, earlier]
    congr 1
    cases found : key? member with
    | none => simp [found]
    | some key =>
      have taken : (key.1 ∈ before.filterMap fun member => (key? member).map Prod.fst) ↔
          before.any (belongs key.1) := by
        rw [List.mem_filterMap, List.any_eq_true]
        simp [belongs, Option.any_eq_true, Option.map_eq_some_iff]
      rw [found, Option.any_some] at last
      by_cases any : before.any (belongs key.1)
      · simp [List.removeAll, found, last, any, taken.2 any]
      · have free := mt taken.1 any
        simp [List.removeAll, List.eraseDups_cons, found, last, any, free]

theorem length_stays (once : (members.map Node.id).Nodup) :
    (members.filter (stays members)).length + members.countP (isFirst members) =
      members.length + (names members).length := by
  have leading : (names members).length = members.countP (leads members) := by
    rw [names_eq once, List.length_filterMap_eq_countP, List.countP_filter]
    apply List.countP_congr
    intro member _
    cases isKey : key? member <;> simp [leads, isKey]
  rw [leading, ← List.countP_eq_length_filter]
  have counted (listed : List Node) (among : ∀ member ∈ listed, member ∈ members) :
      listed.countP (stays members) + listed.countP (isFirst members) =
        listed.length + listed.countP (leads members) := by
    induction listed with
    | nil => rfl
    | cons member rest ih =>
      obtain ⟨here, later⟩ := List.forall_mem_cons.1 among
      have counted := ih later
      have first := isFirst_of_leads once here
      simp only [List.countP_cons, List.length_cons]
      by_cases lead : leads members member
      · simp [stays, lead, first lead]
        omega
      · by_cases isFirst : isFirst members member <;> simp [stays, lead, isFirst] <;> omega
  exact counted members fun _ => id

theorem shape_of_accessor? {decl : MethodDecl Node} (found : accessor? member = some decl) :
    member.shape = .method decl :=
  Node.shape_of_methodDecl? (Option.filter_eq_some_iff.1 found).1

theorem accessor?_of_type (isType : member.shape.isType) : accessor? member = none := by
  cases found : accessor? member with
  | none => rfl
  | some decl => simp [shape_of_accessor? found, Shape.isType] at isType

theorem accessor?_of_belongs {name : FoldedName} (own : belongs name member) :
    ∃ decl, accessor? member = some decl ∧ FoldedName.of decl.name = name := by
  unfold belongs key? at own
  cases isAccessor : accessor? member with
  | none => simp [isAccessor] at own
  | some decl => exact ⟨decl, rfl, by simpa [isAccessor] using own⟩

theorem accessor?_of_leads (isLead : leads members member) : ∃ decl, accessor? member = some decl ∧
    (members.find? (belongs (.of decl.name))).any (·.id == member.id) := by
  unfold leads key? at isLead
  cases isAccessor : accessor? member with
  | none => simp [isAccessor] at isLead
  | some decl => exact ⟨decl, rfl, by simpa [isAccessor] using isLead⟩

theorem mem_accessors_gather {id : NodeId} {accessor : Node} {property : PropertyDecl Node}
    (shape : (gather id name members).shape = .property property)
    (inside : accessor ∈ property.accessors) : accessor ∈ members ∧
      belongs (.of name) accessor ∧ isFirst members accessor := by
  have isPart : accessor ∈ (gather id name members).children := by
    rwa [Node.children, shape]
  rw [children_gather] at isPart
  obtain ⟨kind, -, found⟩ := List.mem_flatMap.1 isPart
  rw [Option.mem_toList] at found
  have isKey : key? accessor = some (.of name, kind) := by simpa using List.find?_some found
  refine ⟨List.mem_of_find?_eq_some found, by simp [belongs, isKey], ?_⟩
  simp [isFirst, isKey, found]

theorem name_gather {id : NodeId} {property : PropertyDecl Node}
    (shape : (gather id name members).shape = .property property) : property.name = name := by
  obtain rfl := Shape.property.inj shape
  rfl

theorem accessorOf?_gather {id : NodeId} {kind : MethodKind} {property : PropertyDecl Node}
    (shape : (gather id name members).shape = .property property) (isAccessor : kind.isAccessor) :
    accessorOf? property kind = members.find? (key? · == some (.of name, kind)) := by
  rw [← slot?_eq]
  obtain rfl := Shape.property.inj shape
  cases kind <;> simp_all [MethodKind.isAccessor, accessorOf?]

section Gathering

variable {g : Node → Node} (once : (members.map Node.id).Nodup)
  (noProperty : ∀ member ∈ members, member.shape.family ≠ .property)
  (kept : ∀ member ∈ members, Node.Kept member (g member))

include kept

theorem stands_replaced (newId : NodeId → NodeId) (listed : member ∈ members) :
    Stands members member (replaced newId g members member) := by
  have kept := kept member listed
  unfold replaced
  cases isAccessor : accessor? member with
  | none =>
    cases isType : member.shape.isType with
    | true => exact .type isType (kept.isType.trans isType) kept.id
    | false =>
      dsimp only
      rw [kept.fixed isType]
      exact .same (by simp [leads, key?, isAccessor])
  | some decl =>
    dsimp only
    split
    · rename_i leads
      exact .property leads isAccessor rfl rfl
    · rename_i other
      exact .same (by simpa using other)

include noProperty

theorem leads_of_property {property : PropertyDecl Node} (listed : member ∈ members)
    (shape : (replaced newId g members member).shape = .property property) :
    ∃ decl, accessor? member = some decl ∧ leads members member ∧
      replaced newId g members member = gather (newId member.id) decl.name members := by
  have differs := noProperty member listed
  unfold replaced at shape ⊢
  cases isAccessor : accessor? member with
  | none =>
    rw [isAccessor] at shape
    rw [← (kept member listed).family, shape] at differs
    simp [Shape.family] at differs
  | some decl =>
    rw [isAccessor] at shape
    dsimp only at shape
    split at shape
    · rename_i isLead
      exact ⟨decl, rfl, isLead, by simp [isLead]⟩
    · rw [shape] at differs
      simp [Shape.family] at differs

include once

theorem mem_gathered_of_first {before after : List Node} {accessor : Node} {decl : MethodDecl Node}
    (split : members = before ++ accessor :: after) (isAccessor : accessor? accessor = some decl)
    (first : ∀ earlier ∈ before, key? earlier ≠ key? accessor) {new : List Node}
    (whole : new = (members.filter (stays members)).map (replaced newId g members)) :
    accessor ∉ new ∧ ∃ node ∈ new, ∃ property, node.shape = .property property ∧
      sameName property.name decl.name ∧ accessorOf? property decl.kind = some accessor ∧
      ∀ other ∈ new, ∀ property, other.shape = .property property →
        accessor ∈ property.accessors → other = node := by
  have isKey : key? accessor = some (.of decl.name, decl.kind) := by simp [key?, isAccessor]
  have isMethod := shape_of_accessor? isAccessor
  have isFirst : isFirst members accessor := by
    rw [split] at once ⊢
    rw [isFirst_split once]
    simpa [isKey] using first
  have found : members.find? (key? · == some (.of decl.name, decl.kind)) = some accessor := by
    have none : before.find? (key? · == some (.of decl.name, decl.kind)) = none := by
      rw [List.find?_eq_none]
      intro earlier listed
      simpa [isKey] using first earlier listed
    rw [split, List.find?_append, none, Option.none_or, List.find?_cons_of_pos (by simp [isKey])]
  constructor
  · rw [whole]
    intro listed
    obtain ⟨member, remains, same⟩ := List.mem_map.1 listed
    obtain ⟨inside, stay⟩ := List.mem_filter.1 remains
    have stands := stands_replaced kept newId inside
    rw [same] at stands
    cases stands with
    | property _ _ shape => simp [shape] at isMethod
    | same other => simp [stays, isFirst, other] at stay
    | type _ alsoType => simp [isMethod, Shape.isType] at alsoType
  · obtain ⟨leader, isLeader⟩ : ∃ leader, members.find? (belongs (.of decl.name)) = some leader := by
      rw [← Option.isSome_iff_exists, List.find?_isSome]
      exact ⟨accessor, List.mem_of_find?_eq_some found, by simp [belongs, isKey]⟩
    have listed := List.mem_of_find?_eq_some isLeader
    obtain ⟨leading, isLeading, isName⟩ := accessor?_of_belongs (List.find?_some isLeader)
    have isKeyToo : key? leader = some (.of leading.name, leading.kind) := by simp [key?, isLeading]
    have isLead : leads members leader := by simp [leads, isKeyToo, isName, isLeader]
    have gathers : replaced newId g members leader =
        gather (newId leader.id) leading.name members := by simp [replaced, isLeading, isLead]
    have inside : gather (newId leader.id) leading.name members ∈ new := by
      rw [whole, ← gathers]
      exact List.mem_map_of_mem (List.mem_filter.2 ⟨listed, by simp [stays, isLead]⟩)
    have isProperty : (gather (newId leader.id) leading.name members).shape = .property _ := rfl
    refine ⟨_, inside, _, isProperty, ?_, ?_, ?_⟩
    · simpa [sameName] using isName
    · rw [accessorOf?_gather isProperty (Option.filter_eq_some_iff.1 isAccessor).2, isName, found]
    · rw [whole]
      intro other among property shape has
      obtain ⟨member, remains, rfl⟩ := List.mem_map.1 among
      have isMember := List.mem_of_mem_filter remains
      obtain ⟨owner, isOwner, isLeadToo, gathersToo⟩ :=
        leads_of_property noProperty kept isMember shape
      rw [gathersToo] at shape
      obtain ⟨-, own, -⟩ := mem_accessors_gather shape has
      rw [belongs, isKey, Option.any_some, beq_iff_eq] at own
      obtain ⟨other, isOther, isFound⟩ := accessor?_of_leads isLeadToo
      obtain rfl := Option.some.inj (isOwner.symm.trans isOther)
      rw [← own, isLeader, Option.any_some, beq_iff_eq] at isFound
      obtain rfl := List.inj_on_of_nodup_map once listed isMember isFound
      exact gathers

theorem mem_gathered_of_repeated {before after : List Node} {accessor : Node}
    {decl : MethodDecl Node} (split : members = before ++ accessor :: after)
    (isAccessor : accessor? accessor = some decl)
    (repeated : ∃ earlier ∈ before, key? earlier = key? accessor) {new : List Node}
    (whole : new = (members.filter (stays members)).map (replaced newId g members)) :
    accessor ∈ new ∧ ∀ other ∈ new, ∀ property, other.shape = .property property →
      accessor ∉ property.accessors := by
  have isKey : key? accessor = some (.of decl.name, decl.kind) := by simp [key?, isAccessor]
  obtain ⟨earlier, comes, same⟩ := repeated
  rw [isKey] at same
  have notFirst : isFirst members accessor = false := by
    rw [split] at once ⊢
    rw [isFirst_split once, isKey, Option.any_some, Bool.not_eq_false', List.any_eq_true]
    exact ⟨earlier, comes, by simp [same]⟩
  have notLead : leads members accessor = false := by
    rw [split] at once ⊢
    rw [leads_split once, isKey, Option.any_some, Bool.not_eq_false', List.any_eq_true]
    exact ⟨earlier, comes, by simp [belongs, same]⟩
  constructor
  · rw [whole, List.mem_map]
    refine ⟨accessor, List.mem_filter.2 ⟨?_, by simp [stays, notFirst]⟩, ?_⟩
    · simp [split]
    · simp [replaced, isAccessor, notLead]
  · rw [whole]
    intro other among property shape has
    obtain ⟨member, remains, rfl⟩ := List.mem_map.1 among
    obtain ⟨owner, -, -, gathers⟩ :=
      leads_of_property noProperty kept (List.mem_of_mem_filter remains) shape
    rw [gathers] at shape
    obtain ⟨-, -, isFirst⟩ := mem_accessors_gather shape has
    simp [notFirst] at isFirst

theorem names_gathered {new : List Node}
    (whole : new = (members.filter (stays members)).map (replaced newId g members)) :
    new.filterMap name? = names members := by
  have named : ∀ member ∈ members.filter (stays members),
      name? (replaced newId g members member) =
        if leads members member then (key? member).map Prod.fst else none := by
    intro member remains
    have listed := List.mem_of_mem_filter remains
    have stands := stands_replaced kept newId listed
    generalize replaced newId g members member = new at stands
    cases stands with
    | property isLead isAccessor shape same => simp [name?, shape, isLead, key?, isAccessor, same]
    | same other =>
      have differs := noProperty member listed
      cases shape : member.shape <;> simp_all [name?, Shape.family]
    | type isType alsoType =>
      have other : leads members member = false := by simp [leads, key?, accessor?_of_type isType]
      cases shape : new.shape <;> simp_all [name?, Shape.isType]
  have leading : (members.filter (stays members)).filter (leads members) =
      members.filter (leads members) := by
    rw [List.filter_filter]
    apply List.filter_congr
    intro member _
    cases lead : leads members member <;> simp [stays, lead]
  rw [whole, List.filterMap_map, names_eq once, ← leading]
  exact (List.filterMap_congr named).trans List.filterMap_filter.symm

theorem gathered (newId : NodeId → NodeId) :
    Gathered members (gatherAll newId [] (members.map g)) := by
  have images : ∀ member ∈ members, (g member).id = member.id ∧
      accessor? (g member) = accessor? member ∧
      ((accessor? member).isSome → g member = member) := by
    intro member listed
    have kept := kept member listed
    cases isType : member.shape.isType with
    | true =>
      have alsoType : (g member).shape.isType := kept.isType.trans isType
      simp [kept.id, accessor?_of_type isType, accessor?_of_type alsoType]
    | false => simp [kept.fixed isType]
  have whole := gatherAll_image images newId once
  constructor
  · intro before accessor after decl split isAccessor first
    exact mem_gathered_of_first once noProperty kept split isAccessor first whole
  · intro before accessor after decl split isAccessor repeated
    exact mem_gathered_of_repeated once noProperty kept split isAccessor repeated whole
  · rw [whole]
    intro node among property shape accessor has
    obtain ⟨member, remains, rfl⟩ := List.mem_map.1 among
    obtain ⟨owner, -, -, gathers⟩ :=
      leads_of_property noProperty kept (List.mem_of_mem_filter remains) shape
    rw [gathers] at shape
    rw [name_gather shape]
    exact mem_accessors_gather shape has
  · exact names_gathered once noProperty kept whole
  · rw [whole, List.forall₂_map_right_iff, List.forall₂_same]
    intro member remains
    exact stands_replaced kept newId (List.mem_of_mem_filter remains)
  · rw [countP_property, names_gathered once noProperty kept whole, whole, List.length_map,
      length_stays once]

end Gathering

theorem typesBelow_gatherAll (newId : NodeId → NodeId) (before : List (FoldedName × MethodKind))
    (none : ∀ member ∈ members, member.shape.isType = false → member.typesBelow = []) :
    (gatherAll newId before members).flatMap Node.typesBelow =
      members.flatMap Node.typesBelow := by
  have bare {member : Node} {decl : MethodDecl Node} (found : accessor? member = some decl)
      (listed : member.shape.isType = false → member.typesBelow = []) : member.typesBelow = [] :=
    listed (by simp [shape_of_accessor? found, Shape.isType])
  fun_induction gatherAll newId before members with
  | case1 => rfl
  | case2 before member rest _ ih =>
    rw [List.flatMap_cons, List.flatMap_cons, ih (List.forall_mem_cons.1 none).2]
  | case3 before member rest _ _ _ _ ih =>
    rw [List.flatMap_cons, List.flatMap_cons, ih (List.forall_mem_cons.1 none).2]
  | case4 before member rest decl found _ _ later _ ih =>
    obtain ⟨here, further⟩ := List.forall_mem_cons.1 none
    rw [List.flatMap_cons, bare found here, List.nil_append]
    exact ih further
  | case5 before member rest decl found _ _ later _ ih =>
    obtain ⟨here, further⟩ := List.forall_mem_cons.1 none
    have property : (gather (newId member.id) decl.name (member :: rest)).typesBelow = [] := by
      rw [Node.typesBelow_eq, if_neg (by simp [gather, Node.made, Node.shape, Shape.isType]),
        List.nil_append, List.flatMap_eq_nil_iff]
      intro part inside
      obtain ⟨among, isMethod⟩ := mem_children_gather inside
      exact none part among (by rw [Shape.isType_eq, isMethod]; rfl)
    rw [List.flatMap_cons, List.flatMap_cons, property, bare found here, List.nil_append,
      List.nil_append]
    exact ih further

theorem gatherNode_isTypePass (newId : NodeId → NodeId) :
    Node.IsTypePass (gatherNode newId) fun decl => gatherAll newId [] decl.members := by
  constructor
  · exact (gatherNode_regroups newId).1
  · intro node decl shape
    rw [gatherNode, shape]
    rfl
  · rintro ⟨info, shape⟩ noType
    cases shape <;> first | rfl | simp [Node.shape, Shape.isType] at noType

section Original

variable {root type : Node} {decl : TypeDecl Node} (original : root.Original)
  (inside : type ∈ root.descendants) (shape : type.shape = .type decl) (newId : NodeId → NodeId)

include original inside shape

theorem gathered_mapUp : Gathered decl.members
    (gatherAll newId [] (decl.members.map (Node.mapUp (gatherNode newId)))) := by
  apply gathered
  · exact original.nodup_members inside shape
  · intro member listed
    rcases original.family_member inside shape listed with family | family | family <;> simp [family]
  · exact (gatherNode_isTypePass newId).kept original.layers inside shape

theorem count_properties : (type.mapUp (gatherNode newId)).children.countP
    (·.shape.family == .property) = (names decl.members).length := by
  rw [← (gathered_mapUp original inside shape newId).named, countP_property, Node.children,
    (gatherNode_isTypePass newId).shape_mapUp shape]
  rfl

end Original

end Property

open Property in
/-- Gathering the accessors of a module that is read. The types stay, each with its own members, of
which the accessors are gathered into properties; and their number is given. -/
theorem Draft.gatherAccessors_gathers {text name : String} {module : Module}
    (parsed : parseModule text name = .ok module) {after : Draft} {count : Nat}
    (gathers : (ofModule module).gatherAccessors = (after, count)) :
    after.root.Distinct ∧
    after.root.typesBelow.map Node.id = module.root.typesBelow.map Node.id ∧
    (∀ type ∈ module.root.descendants, ∀ decl, type.shape = .type decl →
      ∃ new ∈ after.root.descendants, new.id = type.id ∧
        ∃ members, new.shape = .type { decl with members } ∧ Gathered decl.members members) ∧
    count = (after.root.typesBelow.map fun type =>
      type.children.countP (·.shape.family == .property)).sum := by
  have original := parseModule_original parsed
  let newId := (ofModule module).newId 1
  have pass := gatherNode_isTypePass newId
  have keeps (decl : TypeDecl Node) (bare : Node.Bare decl.members)
      (_ : (decl.members.map Node.id).Nodup) := typesBelow_gatherAll newId [] bare
  have root : after.root = module.root.mapUp (gatherNode newId) :=
    congrArg (fun result : Draft × Nat => result.1.root) gathers.symm
  refine ⟨?_, ?_, fun type inside decl shape => ?_, ?_⟩
  · have formed := (Prepared.read parsed).gatherAccessors.formed
    rw [gathers] at formed
    exact formed.distinct
  · rw [root, pass.ids_typesBelow original.layers original.distinct keeps]
  · rw [root]
    exact ⟨_, pass.mem_descendants original.layers original.distinct keeps inside shape, pass.id_mapUp type, _,
      pass.shape_mapUp shape, gathered_mapUp original inside shape newId⟩
  · have counted : count = ((module.root.typesBelow.filterMap Node.typeDecl?).map fun decl =>
        (names decl.members).length).sum := congrArg Prod.snd gathers.symm
    rw [counted, root, pass.typesBelow_mapUp original.layers original.distinct keeps, List.map_map, List.map_filterMap,
      ← List.filterMap_eq_map]
    congr 1
    apply List.filterMap_congr
    intro type listed
    obtain ⟨inside, isType⟩ := Node.mem_typesBelow.1 listed
    obtain ⟨decl, shape⟩ := (Shape.isType_iff _).1 isType
    simp [Node.typeDecl?, shape, count_properties original inside shape]

def setterText : String :=
  "Property Set A(v)\nEnd Property\nProperty Let A(v)\nEnd Property\nProperty Set A(v)\nEnd Property"

open Property in
theorem exists_setters : ∃ module setter letter again, parseModule setterText "C" = .ok module ∧
    module.root.children = [setter, letter, again] ∧ key? setter = some (.of "A", .propertySet) ∧
    key? letter = some (.of "A", .propertyLet) ∧ key? again = some (.of "A", .propertySet) := by
  let read (member : Node) : Option (List Char × MethodKind) :=
    (accessor? member).map fun decl => (decl.name.toList, decl.kind)
  have reads : (parseModule setterText "C").toOption.any fun module => module.root.children.map read ==
      [some (['A'], .propertySet), some (['A'], .propertyLet), some (['A'], .propertySet)] := by
    decide +kernel
  have isKey {member : Node} {kind : MethodKind} (isRead : read member = some (['A'], kind)) :
      key? member = some (.of "A", kind) := by
    obtain ⟨decl, found, same⟩ := Option.map_eq_some_iff.1 isRead
    obtain ⟨name, rfl⟩ := Prod.mk.inj same
    have isName : decl.name = "A" := String.toList_inj.1 name
    rw [key?, found, ← isName]
    rfl
  obtain ⟨module, parsed, holds⟩ := exists_module_of_any reads
  obtain ⟨setter, _, children, isSetter, rest⟩ := List.map_eq_cons_iff.1 (eq_of_beq holds)
  obtain ⟨letter, _, rfl, isLetter, rest⟩ := List.map_eq_cons_iff.1 rest
  obtain ⟨again, _, rfl, isAgain, rest⟩ := List.map_eq_cons_iff.1 rest
  rw [List.map_eq_nil_iff.1 rest] at children
  exact ⟨module, setter, letter, again, parsed, children, isKey isSetter, isKey isLetter, isKey isAgain⟩

open Property in
/-- Accessors of two kinds go into one property, and a second setter stays where it is. -/
theorem Draft.gatherAccessors_gathers_set : ∃ module setter letter again,
    parseModule setterText "C" = .ok module ∧ module.root.children = [setter, letter, again] ∧
    ∃ new ∈ (ofModule module).gatherAccessors.1.root.descendants, new.id = module.root.id ∧
      again ∈ new.children ∧ setter ∉ new.children ∧ letter ∉ new.children ∧
      ∃ node ∈ new.children, ∃ property, node.shape = .property property ∧
        property.setter = some setter ∧ property.letter = some letter ∧ again ∉ property.accessors := by
  obtain ⟨module, setter, letter, again, parsed, children, isSetter, isLetter, isAgain⟩ := exists_setters
  obtain ⟨decl, shape⟩ := (Shape.isType_iff _).1 (parseModule_isType parsed)
  obtain ⟨-, -, gathered, -⟩ := gatherAccessors_gathers parsed rfl
  obtain ⟨new, inside, id, members, newShape, gathers⟩ :=
    gathered module.root module.root.mem_descendants_self decl shape
  have all : decl.members = [setter, letter, again] := by
    rwa [Node.children, shape] at children
  have parts : new.children = members := by
    rw [Node.children, newShape]
    rfl
  have accessor {member : Node} {kind : MethodKind} (isKey : key? member = some (.of "A", kind)) :
      ∃ method, accessor? member = some method ∧ method.kind = kind := by
    obtain ⟨method, isMethod, same⟩ := Option.map_eq_some_iff.1 isKey
    exact ⟨method, isMethod, congrArg Prod.snd same⟩
  obtain ⟨_, isSet, setKind⟩ := accessor isSetter
  obtain ⟨_, isLet, letKind⟩ := accessor isLetter
  obtain ⟨_, isSecond, -⟩ := accessor isAgain
  obtain ⟨noSetter, node, listed, property, isProperty, -, setters, -⟩ :=
    gathers.placed [] setter _ _ all isSet (List.forall_mem_nil _)
  obtain ⟨noLetter, other, among, property', isProperty', -, letters, -⟩ :=
    gathers.placed [setter] letter _ _ all isLet (by simp [isSetter, isLetter])
  obtain ⟨stays, apart⟩ := gathers.repeated [setter, letter] again [] _ all isSecond
    ⟨setter, List.mem_cons_self, isSetter.trans isAgain.symm⟩
  -- one name has one property
  have names : members.filterMap name? = [.of "A"] := by
    rw [gathers.named, names_eq_eraseDups, all]
    simp [isSetter, isLetter, isAgain, List.eraseDups_cons]
  obtain ⟨before, only, after, rfl, none, -, none'⟩ := List.filterMap_eq_cons_iff.1 names
  have isOnly {node : Node} {property : PropertyDecl Node} (listed : node ∈ before ++ only :: after)
      (isProperty : node.shape = .property property) : node = only := by
    have isName : name? node = some (.of property.name) := by rw [name?, isProperty]
    rcases List.mem_append.1 listed with early | late
    · cases isName.symm.trans (none node early)
    · rcases List.mem_cons.1 late with same | late
      · exact same
      · cases isName.symm.trans (List.filterMap_eq_nil_iff.1 none' node late)
  obtain rfl : node = other := (isOnly listed isProperty).trans (isOnly among isProperty').symm
  obtain rfl := Shape.property.inj (isProperty.symm.trans isProperty')
  rw [setKind] at setters
  rw [letKind] at letters
  exact ⟨module, setter, letter, again, parsed, children, new, inside, id, parts ▸ stays,
    parts ▸ noSetter, parts ▸ noLetter, node, parts ▸ listed, property, isProperty, setters, letters,
    apart node listed property isProperty⟩

end ScriptMigration
