import ScriptMigration.Proofs.Draft.Formed
import ScriptMigration.Reshape.Property

/-! Gathering the accessors of properties keeps a draft well formed: every accessor moves from its
type into one property at most, and all that the tree gains are the properties. -/
namespace ScriptMigration

namespace Property

open Node (Regroups idsBelow)

def key? (member : Node) : Option (FoldedName × MethodKind) :=
  (accessor? member).map fun decl => (.of decl.name, decl.kind)

def belongs (name : FoldedName) (member : Node) : Bool := (key? member).any (·.1 == name)

def belongsAny (before : List (FoldedName × MethodKind)) (member : Node) : Bool :=
  (key? member).any fun key => before.any (·.1 == key.1)

def firsts (before : List (FoldedName × MethodKind)) : List Node → List Node
  | [] => []
  | member :: rest =>
    match key? member with
    | none => firsts before rest
    | some key =>
      if before.contains key then firsts before rest else member :: firsts (key :: before) rest

def leaders (before : List (FoldedName × MethodKind)) : List Node → List Node
  | [] => []
  | member :: rest =>
    match key? member with
    | none => leaders before rest
    | some key =>
      if before.contains key then leaders before rest
      else if before.any (·.1 == key.1) then leaders (key :: before) rest
      else member :: leaders (key :: before) rest

theorem leaders_sublist (before : List (FoldedName × MethodKind)) (members : List Node) :
    (leaders before members).Sublist members := by
  fun_induction leaders before members with
  | case1 => exact .slnil
  | case2 before member rest _ ih | case3 before member rest _ _ _ ih
  | case4 before member rest _ _ _ _ ih => exact ih.cons _
  | case5 before member rest _ _ _ _ ih => exact ih.cons_cons _

theorem kind_of_key? {member : Node} {key : FoldedName × MethodKind}
    (found : key? member = some key) : key.2.isAccessor := by
  obtain ⟨decl, isAccessor, rfl⟩ := Option.map_eq_some_iff.1 found
  exact (Option.filter_eq_some_iff.1 isAccessor).2

theorem family_of_key? {member : Node} {key : FoldedName × MethodKind}
    (found : key? member = some key) : member.shape.family = .method := by
  obtain ⟨decl, isAccessor, -⟩ := Option.map_eq_some_iff.1 found
  rw [Node.shape_of_methodDecl? (Option.filter_eq_some_iff.1 isAccessor).1]
  rfl

theorem filter_firsts (key : FoldedName × MethodKind) (before : List (FoldedName × MethodKind))
    (members : List Node) : (firsts before members).filter (key? · == some key) =
      if before.contains key then [] else (members.find? (key? · == some key)).toList := by
  fun_induction firsts before members with
  | case1 => simp
  | case2 before member rest none ih => rw [ih, List.find?_cons_of_neg (by simp [none])]
  | case3 before member rest other found known ih =>
    by_cases same : other = key
    · subst same
      rw [ih, if_pos known, if_pos known]
    · rw [ih, List.find?_cons_of_neg (by simpa [found] using same)]
  | case4 before member rest other found unknown ih =>
    by_cases same : other = key
    · subst same
      rw [List.filter_cons_of_pos (by simp [found]), ih, if_pos (by simp), if_neg unknown,
        List.find?_cons_of_pos (by simp [found])]
      rfl
    · have skipped : (other :: before).contains key = before.contains key := by
        simp [Ne.symm same]
      rw [List.filter_cons_of_neg (by simpa [found] using same), ih, skipped,
        List.find?_cons_of_neg (by simpa [found] using same)]

theorem slot?_eq (name : String) (kind : MethodKind) (members : List Node) :
    slot? name kind members = members.find? (key? · == some (.of name, kind)) := by
  unfold slot?
  congr 1
  funext member
  unfold key?
  cases accessor? member with
  | none => rfl
  | some decl =>
    rw [Bool.eq_iff_iff]
    simp [sameName, and_comm]

theorem children_gather (id : NodeId) (name : String) (members : List Node) :
    (gather id name members).children = [MethodKind.propertyGet, .propertyLet, .propertySet].flatMap
      fun kind => (members.find? (key? · == some (.of name, kind))).toList := by
  show PropertyDecl.accessors _ = _
  simp [PropertyDecl.accessors, slot?_eq]

theorem filter_belongs_perm (name : FoldedName) (members : List Node) :
    (members.filter (belongs name)).Perm
      ([MethodKind.propertyGet, .propertyLet, .propertySet].flatMap fun kind =>
        members.filter (key? · == some (name, kind))) := by
  induction members with
  | nil => exact .refl _
  | cons member rest ih =>
    cases found : key? member with
    | none => simpa [belongs, found] using ih
    | some key =>
      obtain ⟨other, kind⟩ := key
      have isAccessor := kind_of_key? found
      by_cases same : other = name
      · subst same
        rw [List.filter_cons_of_pos (by simp [belongs, found])]
        refine (ih.cons _).trans ?_
        cases kind with
        | propertyGet => simp [found]
        | propertyLet =>
          simp only [List.flatMap_cons, List.filter_cons, found]
          simpa using List.perm_middle.symm
        | propertySet =>
          simp only [List.flatMap_cons, List.filter_cons, found]
          simpa [← List.append_assoc] using List.perm_middle.symm
        | _ => exact nomatch isAccessor
      · simpa [belongs, found, same] using ih

theorem children_gather_perm (id : NodeId) {member : Node} {decl : MethodDecl Node}
    {before : List (FoldedName × MethodKind)} (rest : List Node)
    (found : accessor? member = some decl)
    (new : before.any (·.1 == FoldedName.of decl.name) = false) :
    (gather id decl.name (member :: rest)).children.Perm
      (member :: (firsts ((.of decl.name, decl.kind) :: before) rest).filter
        (belongs (.of decl.name))) := by
  have isKey : key? member = some (.of decl.name, decl.kind) := by simp [key?, found]
  have unknown (kind : MethodKind) : before.contains (FoldedName.of decl.name, kind) = false := by
    rw [List.any_eq_false] at new
    rw [List.contains_eq_any_beq, List.any_eq_false]
    intro key listed same
    exact new key listed (by simp [← eq_of_beq same])
  have isFirst : member :: (firsts ((.of decl.name, decl.kind) :: before) rest).filter
      (belongs (.of decl.name)) =
      (firsts before (member :: rest)).filter (belongs (.of decl.name)) := by
    have own : belongs (.of decl.name) member := by simp [belongs, isKey]
    simp only [firsts, isKey, unknown, Bool.false_eq_true, if_false, List.filter_cons_of_pos own]
  rw [isFirst, children_gather]
  refine .trans (.of_eq ?_) (filter_belongs_perm _ _).symm
  exact List.flatMap_congr fun kind _ => by rw [filter_firsts, unknown]; rfl

theorem filter_belongsAny_cons (key : FoldedName × MethodKind)
    {before : List (FoldedName × MethodKind)} (new : before.any (·.1 == key.1) = false)
    (members : List Node) : (members.filter (belongsAny (key :: before))).Perm
      (members.filter (belongs key.1) ++ members.filter (belongsAny before)) := by
  induction members with
  | nil => exact .refl _
  | cons member rest ih =>
    cases found : key? member with
    | none => simpa [belongs, belongsAny, found] using ih
    | some other =>
      by_cases same : other.1 = key.1
      · have own : belongs key.1 member := by simp [belongs, found, same]
        have not : belongsAny before member = false := by simp [belongsAny, found, same, new]
        have any : belongsAny (key :: before) member := by simp [belongsAny, found, same]
        rw [List.filter_cons_of_pos any, List.filter_cons_of_pos own,
          List.filter_cons_of_neg (by simp [not])]
        exact ih.cons _
      · have own : belongs key.1 member = false := by simp [belongs, found, same]
        have any : belongsAny (key :: before) member = belongsAny before member := by
          simp [belongsAny, found, Ne.symm same]
        rw [List.filter_cons, List.filter_cons, List.filter_cons, own, any]
        split
        · exact (ih.cons _).trans List.perm_middle.symm
        · exact ih

/-- Below the members of a type the properties are gained, and what accessors of known properties
are placed in these is lost. -/
theorem idsBelow_gatherAll (newId : NodeId → NodeId) (before : List (FoldedName × MethodKind))
    (members : List Node) : (idsBelow (gatherAll newId before members) ++
      idsBelow ((firsts before members).filter (belongsAny before))).Perm
    (idsBelow members ++ (leaders before members).map fun member => newId member.id) := by
  fun_induction gatherAll newId before members with
  | case1 => exact .refl _
  | case2 before member rest none ih =>
    have noKey : key? member = .none := by simp [key?, none]
    simp only [firsts, leaders, noKey, Node.idsBelow_cons, List.cons_append, List.append_assoc]
    exact .cons _ (ih.append_left _)
  | case3 before member rest decl found key known ih =>
    have isKey : key? member = some (key, decl.kind) := by simp [key?, found, key]
    simp only [firsts, leaders, isKey, known, if_true, Node.idsBelow_cons, List.cons_append,
      List.append_assoc]
    exact .cons _ (ih.append_left _)
  | case4 before member rest decl found key unknown later known ih =>
    subst later
    have isKey : key? member = some (key, decl.kind) := by simp [key?, found, key]
    have same : belongsAny ((key, decl.kind) :: before) = belongsAny before := by
      funext other
      cases taken : key? other with
      | none => simp [belongsAny, taken]
      | some first =>
        by_cases equal : first.1 = key
        · simp [belongsAny, taken, equal, known]
        · simp [belongsAny, taken, Ne.symm equal]
    have own : belongsAny before member := by simp [belongsAny, isKey, known]
    rw [same] at ih
    simp only [firsts, leaders, isKey, unknown, known, if_true, Bool.false_eq_true, if_false,
      List.filter_cons_of_pos own]
    refine List.perm_iff_count.2 fun id => ?_
    have counted := ih.count_eq id
    simp only [Node.idsBelow_cons, List.cons_append, List.count_cons, List.count_append] at counted ⊢
    omega
  | case5 before member rest decl found key unknown later new ih =>
    subst later key
    have isKey : key? member = some (.of decl.name, decl.kind) := by simp [key?, found]
    rw [Bool.not_eq_true] at new
    have foreign : belongsAny before member = false := by simp [belongsAny, isKey, new]
    simp only [firsts, leaders, isKey, unknown, new, Bool.false_eq_true, if_false,
      List.filter_cons, foreign, List.map_cons]
    have inside := Node.idsBelow_perm (children_gather_perm (newId member.id) rest found new)
    have split := Node.idsBelow_perm (filter_belongsAny_cons (.of decl.name, decl.kind) new
      (firsts ((.of decl.name, decl.kind) :: before) rest))
    refine List.perm_iff_count.2 fun id => ?_
    have counted := ih.count_eq id
    have held := inside.count_eq id
    have parted := split.count_eq id
    have named : (gather (newId member.id) decl.name (member :: rest)).id = newId member.id := rfl
    simp only [Node.idsBelow_cons, Node.idsBelow_append, List.cons_append, List.count_cons,
      List.count_append, named] at counted held parted ⊢
    omega

def led (node : Node) : List Node := (node.typeDecl?.map fun decl => leaders [] decl.members).getD []

theorem led_sublist (node : Node) : (led node).Sublist node.children := by
  rcases node with ⟨info, shape⟩
  cases shape with
  | type decl => exact leaders_sublist [] decl.members
  | _ => exact List.nil_sublist _

theorem gatherNode_regroups (newId : NodeId → NodeId) :
    Regroups (fun _ => True) (gatherNode newId) (fun _ => []) fun node =>
      (led node).map fun member => newId member.id := by
  refine ⟨fun node => ?_, fun node _ => ?_⟩
  · unfold gatherNode
    split <;> rfl
  · rcases node with ⟨info, shape⟩
    cases shape with
    | type decl =>
      have perm := idsBelow_gatherAll newId [] decl.members
      rw [List.filter_eq_nil_iff.2 fun member _ => by cases found : key? member <;>
        simp [belongsAny, found]] at perm
      exact perm
    | _ => exact .refl _

theorem gatherNode_family (newId : NodeId → NodeId) (node : Node) :
    (gatherNode newId node).shape.family = node.shape.family := by
  rcases node with ⟨info, shape⟩
  cases shape <;> rfl

theorem mem_gatherAll {newId : NodeId → NodeId} {before : List (FoldedName × MethodKind)}
    {members : List Node} {member : Node} (inside : member ∈ gatherAll newId before members) :
    member ∈ members ∨ ∃ source name later, later ⊆ members ∧
      member = gather (newId source) name later := by
  fun_induction gatherAll newId before members with
  | case1 => exact nomatch inside
  | case2 before first rest _ ih | case3 before first rest _ _ _ _ ih =>
    rcases List.mem_cons.1 inside with rfl | deeper
    · exact .inl List.mem_cons_self
    · rcases ih deeper with listed | ⟨source, name, later, among, same⟩
      · exact .inl (List.mem_cons_of_mem _ listed)
      · exact .inr ⟨source, name, later, List.subset_cons_of_subset _ among, same⟩
  | case4 before first rest _ _ _ _ later _ ih =>
    rcases ih inside with listed | ⟨source, name, later, among, same⟩
    · exact .inl (List.mem_cons_of_mem _ listed)
    · exact .inr ⟨source, name, later, List.subset_cons_of_subset _ among, same⟩
  | case5 before first rest decl _ _ _ later _ ih =>
    rcases List.mem_cons.1 inside with rfl | deeper
    · exact .inr ⟨_, _, _, List.Subset.refl _, rfl⟩
    · rcases ih deeper with listed | ⟨source, name, later, among, same⟩
      · exact .inl (List.mem_cons_of_mem _ listed)
      · exact .inr ⟨source, name, later, List.subset_cons_of_subset _ among, same⟩

theorem mem_children_gather {id : NodeId} {name : String} {members : List Node} {part : Node}
    (inside : part ∈ (gather id name members).children) :
    part ∈ members ∧ part.shape.family = .method := by
  rw [children_gather] at inside
  obtain ⟨kind, -, found⟩ := List.mem_flatMap.1 inside
  rw [Option.mem_toList] at found
  exact ⟨List.mem_of_find?_eq_some found,
    family_of_key? (by simpa using List.find?_some found)⟩

theorem gatherNode_regular (newId : NodeId → NodeId) (node : Node)
    (regular : ∀ below ∈ node.descendants, below.Regular) :
    ∀ below ∈ (gatherNode newId node).descendants, below.Regular := by
  rcases node with ⟨info, shape⟩
  cases shape with
  | type decl =>
    have inner {member below : Node} (isMember : member ∈ decl.members)
        (lies : below ∈ member.descendants) : below.Regular :=
      regular below (Node.mem_descendants_of_child isMember lies)
    intro below inside
    rcases Node.mem_descendants_cases inside with rfl | ⟨part, isPart, deeper⟩
    · exact .ofNone rfl rfl
    · rcases mem_gatherAll isPart with isMember | ⟨id, name, later, among, rfl⟩
      · exact inner isMember deeper
      · rcases Node.mem_descendants_cases deeper with rfl | ⟨accessor, isAccessor, lowest⟩
        · refine ⟨fun demand listed => ?_, rfl⟩
          obtain ⟨accessor, isAccessor, rfl⟩ := List.mem_map.1 listed
          exact (mem_children_gather (show accessor ∈ (gather id name later).children from
            isAccessor)).2
        · exact inner (among (mem_children_gather isAccessor).1) lowest
  | _ => exact regular

end Property

open Property in
theorem Draft.Formed.gatherAccessors {draft : Draft} (formed : draft.Formed) :
    draft.gatherAccessors.1.Formed := by
  have regroups := gatherNode_regroups (draft.newId 1)
  let ids (old : Node) : List NodeId :=
    (led (old.rebuilt (gatherNode (draft.newId 1)))).map Node.id
  have sub (old : Node) : (ids old).Sublist (old.children.map Node.id) := by
    rw [← regroups.ids_children_rebuilt]
    exact (led_sublist _).map _
  have known : ∀ id ∈ draft.root.descendants.flatMap ids, id.index < draft.fresh := by
    intro id listed
    obtain ⟨old, lies, among⟩ := List.mem_flatMap.1 listed
    obtain ⟨part, isPart, rfl⟩ := List.mem_map.1 ((sub old).subset among)
    exact formed.small part (Node.mem_descendants_trans (Node.child_mem_descendants isPart) lies)
  have gained : (draft.root.descendants.flatMap fun old =>
      (led (old.rebuilt (gatherNode (draft.newId 1)))).map fun member => draft.newId 1 member.id) =
      (draft.root.descendants.flatMap ids).map (draft.newId 1) := by
    simp [ids, List.map_flatMap, Function.comp_def]
  have new : ∀ id ∈ (draft.root.descendants.flatMap ids).map (draft.newId 1),
      draft.fresh ≤ id.index ∧ id.index < (1 + 1) * draft.fresh := by
    intro id listed
    obtain ⟨source, among, rfl⟩ := List.mem_map.1 listed
    exact draft.newId_bounds (Nat.le_refl 1) (Nat.le_refl 1) (known source among)
  have apart : ((draft.root.descendants.flatMap ids).map (draft.newId 1)).Nodup := by
    refine List.Nodup.map_on (fun left first right second same => ?_)
      (formed.distinct.parts_nodup fun old _ => sub old)
    exact (draft.newId_inj (known left first) (known right second) same).2
  rw [← gained] at new apart
  have kept := formed.regroup regroups (fun _ _ => trivial)
    (Node.regular_mapUp (gatherNode_family _) (fun _ _ => gatherNode_regular _ _) formed.regular)
    (by omega) new apart draft.gatherAccessors.1.parents
    (fun (_ : Retired) (absurd : _ ∈ []) => nomatch absurd)
  rwa [List.append_nil] at kept

end ScriptMigration
