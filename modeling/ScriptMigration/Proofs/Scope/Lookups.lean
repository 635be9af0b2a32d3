import ScriptMigration.Proofs.Draft.Prepared
import ScriptMigration.Proofs.Resolution.Start
import ScriptMigration.Proofs.Syntax.Settings
import ScriptMigration.Proofs.Token.Opening

/-! Three ways to find what a name declares. A script finds its own members in the tables of its index,
those of another script by going through the members of a type, and what it includes in a table over
the root types of other scripts. All give the first declaration of the name. -/
namespace ScriptMigration

namespace Node

/-- The member can be used by the name: it is not run by itself when an object comes or goes, and its
name is the same but for the case of letters. -/
def Answers (name : String) (member : Node) : Prop :=
  ∃ text, member.declName? = some text ∧ sameName text name ∧
    ∀ decl, member.methodDecl? = some decl → decl.kind.isLifecycle = false

def repeats? (before : List Node) (member : Node) : Option RepeatedMember :=
  member.memberName?.bind fun name =>
    if before.any (·.memberName?.any (sameName · name)) then some ⟨name, member.line⟩ else none

def HoldsMembers (root : Node) : Prop :=
  ∀ type ∈ root.descendants, type.shape.isType → ∀ member ∈ type.children, member.shape.isMember

def offers? (root : Node) (name : String) : Option NodeId :=
  if root.typeDecl?.any (sameName ·.name name) then some root.id
  else (root.findMember? name).map Node.id

variable {root type member : Node} {decl : TypeDecl Node} {name : String}

theorem Nested.holdsMembers (nested : root.Nested) : root.HoldsMembers := by
  intro type inside isType member isPart
  have held := nested type inside member isPart
  rw [Shape.isType_eq, beq_iff_eq] at isType
  rw [isType] at held
  cases shape : member.shape <;>
    simp [shape, Shape.family, Shape.isExpression, Shape.Family.holds, Shape.isMember] at held ⊢

theorem answers_iff (name : String) (member : Node) :
    member.Answers name ↔ member.memberName?.any (sameName · name) := by
  unfold Answers memberName? declName? methodDecl?
  cases shape : member.shape with
  | method decl => cases lifecycle : decl.kind.isLifecycle <;> simp [lifecycle, Shape.declName?]
  | _ => simp [Shape.declName?]

theorem findMember?_eq_some_iff (shape : type.shape = .type decl) :
    type.findMember? name = some member ↔ ∃ before after,
      decl.members = before ++ member :: after ∧ member.Answers name ∧
        ∀ other ∈ before, ¬ other.Answers name := by
  simp only [findMember?, typeDecl?, shape, Option.bind_some, List.find?_eq_some_iff_append,
    answers_iff, Bool.not_eq_true']
  constructor
  · rintro ⟨named, before, after, split, others⟩
    exact ⟨before, after, split, named, by simpa using others⟩
  · rintro ⟨before, after, split, named, others⟩
    exact ⟨named, before, after, split, by simpa using others⟩

end Node

namespace MemberScope

variable {scope : MemberScope} {member : Node} {name : String}

theorem memberName?_map_eq_iff (member : Node) (name : String) :
    member.memberName?.map FoldedName.of = some (.of name) ↔ member.memberName?.any (sameName · name) := by
  cases member.memberName? <;> simp [sameName]

theorem find?_addMember (isMember : member.shape.isMember) (name : String) :
    (scope.addMember member).find? name = (scope.find? name).or
      (if member.memberName?.any (sameName · name) then some member else none) := by
  simp only [find?, lookup?_addMember isMember, memberName?_map_eq_iff]

theorem find?_foldl (members : List Node) (areMembers : ∀ member ∈ members, member.shape.isMember)
    (scope : MemberScope) (name : String) : (members.foldl addMember scope).find? name =
      (scope.find? name).or (members.find? fun member => member.memberName?.any (sameName · name)) := by
  induction members generalizing scope with
  | nil => simp
  | cons member rest ih =>
    obtain ⟨isMember, areMembers⟩ := List.forall_mem_cons.1 areMembers
    rw [List.foldl_cons, ih areMembers, find?_addMember isMember, Option.or_assoc, List.find?_cons]
    cases member.memberName?.any (sameName · name) <;> simp

theorem duplicates_addMember (scope : MemberScope) (member : Node) :
    (scope.addMember member).duplicates = scope.duplicates ++
      (member.memberName?.bind fun name =>
        if (scope.find? name).isSome then some ⟨name, member.line⟩ else none).toList := by
  cases named : member.memberName? with
  | none => simp [addMember_of_nameless named]
  | some name =>
    cases taken : (scope.find? name).isSome with
    | true => simp [addMember_of_taken named taken, taken]
    | false =>
      have unknown : scope.declares (.of name) = false := by rwa [declares_eq]
      simp only [addMember, named, unknown, Option.bind_some, taken, Bool.false_eq_true, if_false]
      cases member.shape <;> simp

theorem duplicates_foldl (members : List Node)
    (areMembers : ∀ member ∈ members, member.shape.isMember) (start : MemberScope)
    (empty : ∀ name, start.find? name = none) :
    (members.foldl addMember start).duplicates = start.duplicates ++
      members.zipIdx.filterMap fun (member, place) => member.repeats? (members.take place) := by
  induction members using List.reverseRecOn with
  | nil => simp
  | append_singleton before member ih =>
    have areBefore : ∀ other ∈ before, other.shape.isMember := fun other listed =>
      areMembers other (List.mem_append_left _ listed)
    have taken (name : String) : ((before.foldl addMember start).find? name).isSome =
        before.any (·.memberName?.any (sameName · name)) := by
      rw [find?_foldl before areBefore, empty, Option.none_or, Bool.eq_iff_iff, List.find?_isSome,
        List.any_eq_true]
    have earlier : (before.zipIdx.filterMap fun (other, place) =>
        other.repeats? ((before ++ [member]).take place)) =
          before.zipIdx.filterMap fun (other, place) => other.repeats? (before.take place) := by
      apply List.filterMap_congr
      rintro ⟨other, place⟩ listed
      have inside : place < before.length := by
        have bounds := List.mem_zipIdx listed
        omega
      simp only [List.take_append_of_le_length (Nat.le_of_lt inside)]
    have last : (([member].zipIdx before.length).filterMap fun (other, place) =>
        other.repeats? ((before ++ [member]).take place)) = (member.repeats? before).toList := by
      simp only [List.zipIdx_cons, List.zipIdx_nil, List.filterMap_cons, List.filterMap_nil,
        List.take_left]
      cases member.repeats? before <;> rfl
    rw [List.foldl_append, List.foldl_cons, List.foldl_nil, duplicates_addMember, ih areBefore,
      List.zipIdx_append, List.filterMap_append, earlier, Nat.zero_add, last, List.append_assoc]
    simp only [taken, Node.repeats?]

theorem find?_ofDecl {decl : TypeDecl Node} (areMembers : ∀ member ∈ decl.members, member.shape.isMember)
    (outer : Option NodeId) (name : String) : (ofDecl decl outer).find? name =
      decl.members.find? fun member => member.memberName?.any (sameName · name) := by
  rw [ofDecl, find?_foldl decl.members areMembers]
  simp [find?, lookup?]

theorem duplicates_ofDecl {decl : TypeDecl Node}
    (areMembers : ∀ member ∈ decl.members, member.shape.isMember) (outer : Option NodeId) :
    (ofDecl decl outer).duplicates = decl.members.zipIdx.filterMap fun (member, place) =>
      member.repeats? (decl.members.take place) := by
  rw [ofDecl, duplicates_foldl decl.members areMembers _ fun name => by simp [find?, lookup?]]
  simp

end MemberScope

namespace IncludedNames

theorem find?_add (scope : IncludedNames) (spelt : String) (decl : DeclRef) (name : String) :
    (scope.add spelt decl).find? name =
      (scope.find? name).or (if sameName spelt name then some decl else none) := by
  simp only [find?, add, Std.HashMap.getElem?_insertIfNew, sameName, beq_iff_eq]
  by_cases same : FoldedName.of spelt = .of name
  · rw [same]
    cases taken : scope.decls[FoldedName.of name]? with
    | none =>
      have absent : FoldedName.of name ∉ scope.decls := by simpa using taken
      simp [absent]
    | some first =>
      have present : FoldedName.of name ∈ scope.decls := by
        rw [← Std.HashMap.isSome_getElem?_iff_mem, taken]
        rfl
      simp [present]
  · simp [same]

theorem find?_foldl (entries : List (String × DeclRef)) (scope : IncludedNames) (name : String) :
    (entries.foldl (fun scope (name, decl) => scope.add name decl) scope).find? name =
      (scope.find? name).or ((entries.find? fun entry => sameName entry.1 name).map Prod.snd) := by
  induction entries generalizing scope with
  | nil => simp
  | cons entry rest ih =>
    rw [List.foldl_cons, ih, find?_add, Option.or_assoc, List.find?_cons]
    cases sameName entry.1 name <;> simp

theorem find?_declared (script : ScriptId) (root : Node) (name : String) :
    ((declared script root).find? fun entry => sameName entry.1 name).map Prod.snd =
      (root.offers? name).map (DeclRef.mk script) := by
  unfold declared Node.offers? Node.findMember?
  cases root.typeDecl? with
  | none => simp
  | some decl =>
    rw [List.find?_cons]
    cases own : sameName decl.name name with
    | true => simp [own]
    | false =>
      have names (member : Node) :
          ((member.memberName?.map fun name => (name, DeclRef.mk script member.id)).any
            fun entry => sameName entry.1 name) = member.memberName?.any (sameName · name) := by
        cases member.memberName? <;> rfl
      simp only [List.find?_filterMap, names]
      simp only [own, Option.any_some, Bool.false_eq_true, if_false, Option.bind_some,
        Option.map_map]
      cases found : decl.members.find? fun member => member.memberName?.any (sameName · name) with
      | none => rfl
      | some member =>
        have named := List.find?_some found
        cases isName : member.memberName? with
        | none => simp [isName] at named
        | some text => simp [isName]

end IncludedNames

namespace ScopeIndex

variable {root type : Node} {decl : TypeDecl Node}

theorem exists_scope (distinct : root.Distinct) (holds : root.HoldsMembers)
    (inside : type ∈ root.descendants) (shape : type.shape = .type decl) : ∃ scope,
      (ofTree root).types[type.id]? = some scope ∧ scope.name = decl.name ∧
      (∀ name, scope.find? name = type.findMember? name) ∧
      scope.duplicates = decl.members.zipIdx.filterMap fun (member, place) =>
        member.repeats? (decl.members.take place) := by
  obtain ⟨place, placed, rfl⟩ := Node.exists_mem_placesUp inside
  have areMembers : ∀ member ∈ decl.members, member.shape.isMember := by
    intro member listed
    apply holds place.node inside
    · simp [shape, Shape.isType]
    · simpa [Node.children, shape, Shape.children] using listed
  refine ⟨_, types_of_mem distinct placed shape, MemberScope.name_ofDecl .., ?_,
    MemberScope.duplicates_ofDecl areMembers _⟩
  intro name
  simp [MemberScope.find?_ofDecl areMembers, Node.findMember?, Node.typeDecl?, shape]

/-- For every type of a tree, the table of its members and a search through them find the same: the
first member that has the name. Reported are the later members of a name that is taken, in their order.
And a name that is included stands for what the first of the scripts offers that has it. -/
theorem lookups_agree {root : Node} (distinct : root.Distinct) (holds : root.HoldsMembers) :
    (∀ type ∈ root.descendants, ∀ decl, type.shape = .type decl → ∃ scope,
      (ofTree root).types[type.id]? = some scope ∧
      (∀ name, scope.find? name = type.findMember? name) ∧
      (∀ name member, type.findMember? name = some member ↔ ∃ before after,
        decl.members = before ++ member :: after ∧ member.Answers name ∧
          ∀ other ∈ before, ¬ other.Answers name) ∧
      scope.duplicates = decl.members.zipIdx.filterMap fun (member, place) =>
        member.repeats? (decl.members.take place)) ∧
    ∀ (scripts : List (ScriptId × Node)) (name : String),
      (IncludedNames.ofScripts scripts).find? name = scripts.findSome? fun (script, other) =>
        (other.offers? name).map (DeclRef.mk script) := by
  constructor
  · intro type inside decl shape
    obtain ⟨scope, listed, -, found, repeated⟩ := exists_scope distinct holds inside shape
    exact ⟨scope, listed, found, fun name member => Node.findMember?_eq_some_iff shape, repeated⟩
  · intro scripts name
    have none : ({} : IncludedNames).find? name = Option.none := by simp [IncludedNames.find?]
    rw [IncludedNames.ofScripts, IncludedNames.find?_foldl, none, Option.none_or, List.find?_flatMap,
      List.map_findSome?]
    apply congrArg (List.findSome? · scripts)
    funext entry
    exact IncludedNames.find?_declared entry.1 entry.2 name

/-- A field and a function whose names differ in the case of letters: the field is found. -/
theorem lookups_agree_total : ∃ module scope,
    parseModule "Public Total\nPublic Function total()\nEnd Function" "Sum" = .ok module ∧
    (ofTree module.root).types[module.root.id]? = some scope ∧
    scope.duplicates = [⟨"total", 2⟩] ∧
    (scope.find? "TOTAL").any (·.shape.varDecl?.isSome) := by
  have reads : (parseModule "Public Total\nPublic Function total()\nEnd Function" "Sum").toOption.any
      fun module => (module.root.findMember? "TOTAL").any (·.shape.varDecl?.isSome) &&
        module.root.typeDecl?.any fun decl => (decl.members.zipIdx.filterMap fun (member, place) =>
          member.repeats? (decl.members.take place)) == [⟨"total", 2⟩] := by
    simp only [Node.findMember?, Node.repeats?, sameName_toList]
    decide +kernel
  obtain ⟨module, parsed, holds⟩ := exists_module_of_any reads
  simp only [Bool.and_eq_true, Option.any_eq_true, beq_iff_eq] at holds
  obtain ⟨isField, decl, isDecl, repeated⟩ := holds
  have prepared := Draft.Prepared.read parsed
  have shape : module.root.shape = .type decl := by
    cases shape : module.root.shape <;> simp_all [Node.typeDecl?]
  obtain ⟨scope, listed, found, -, duplicates⟩ := (lookups_agree prepared.formed.distinct
    prepared.asRead.layers.nested.holdsMembers).1 module.root (Node.mem_descendants_self _) decl shape
  refine ⟨module, scope, parsed, listed, ?_, ?_⟩
  · rw [duplicates, repeated]
  · simpa only [found, Option.any_eq_true] using isField

end ScopeIndex

theorem Surroundings.memberInScript?_own {symbols : SymbolTable} {options : MigrationOptions}
    {store : ScriptStore} {id : ScriptId} {script : Script} {draft : Draft}
    (prepared : draft.Prepared) {type : Node} (inside : type ∈ draft.root.descendants)
    (isType : type.shape.isType) (name : String) :
    (forScript symbols options store id script draft).memberInScript? ⟨id, type.id⟩ name =
      (type.findMember? name).map fun member => ⟨id, member.id⟩ := by
  obtain ⟨decl, shape⟩ : ∃ decl, type.shape = .type decl := by
    cases shape : type.shape <;> simp [shape, Shape.isType] at isType ⊢
  obtain ⟨scope, listed, -, found, -⟩ := ScopeIndex.exists_scope prepared.formed.distinct
    prepared.asRead.layers.nested.holdsMembers inside shape
  have own : (forScript symbols options store id script draft).script = id := rfl
  have types : (forScript symbols options store id script draft).types =
    (ScopeIndex.ofTree draft.root).types := rfl
  simp [memberInScript?, own, types, listed, found]

end ScriptMigration
