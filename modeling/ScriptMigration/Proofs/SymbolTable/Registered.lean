import ScriptMigration.Proofs.SymbolTable.Constants

/-! What a symbol table answers after some entries were registered, told by their names. A table keeps
fingerprints only; where these tell the names apart that are used, its answers are those that a reading of
the list of entries gives. An entry that cannot be added changes none of them. -/
namespace ScriptMigration

theorem sameName_right {left right : String} (same : sameName left right) (other : String) :
    sameName other left = sameName other right := congrArg (FoldedName.of other == ·) (eq_of_beq same)

namespace Fingerprint

variable {left right : String}

theorem ofType_congr (same : sameName left right) : ofType left = ofType right :=
  congrArg (fun key : FoldedName => Fingerprint.mk (typeDomain ^^^ Digest.ofText key.text)) (eq_of_beq same)

theorem ofMember_congr (same : sameName left right) (owner : Fingerprint) :
    ofMember owner left = ofMember owner right :=
  congrArg (fun key : FoldedName => Fingerprint.mk
    ((memberDomain ^^^ owner.word) * memberFactor + Digest.ofText key.text)) (eq_of_beq same)

theorem ofGlobal_congr (same : sameName left right) : ofGlobal left = ofGlobal right :=
  congrArg (fun key : FoldedName => Fingerprint.mk (globalDomain ^^^ Digest.ofText key.text)) (eq_of_beq same)

end Fingerprint

/-- The names that are used: full names of types, members with the full names of their types, and names
of constants and functions. -/
structure Vocabulary where
  types : Set String
  members : Set (String × String)
  globals : Set String

/-- Whether fingerprints tell the names apart. -/
structure Vocabulary.Apart (used : Vocabulary) : Prop where
  types : ∀ left ∈ used.types, ∀ right ∈ used.types,
    Fingerprint.ofType left = .ofType right → sameName left right
  members : ∀ left ∈ used.members, ∀ right ∈ used.members,
    Fingerprint.ofMember (.ofType left.1) left.2 = .ofMember (.ofType right.1) right.2 →
      sameName left.1 right.1 ∧ sameName left.2 right.2
  globals : ∀ left ∈ used.globals, ∀ right ∈ used.globals,
    Fingerprint.ofGlobal left = .ofGlobal right → sameName left right

/-- Whether a type has the fingerprint of its full name, which is used. -/
structure ExternalType.Within (used : Vocabulary) (type : ExternalType) : Prop where
  print : type.print = .ofType type.fullName
  listed : type.fullName ∈ used.types

def Registration.Within (used : Vocabulary) : Registration → Prop
  | .type external => external.Within used
  | .member owner name .. => owner.Within used ∧ (owner.fullName, name) ∈ used.members
  | .defaultMember owner name => owner.Within used ∧ (owner.fullName, name) ∈ used.members
  | .constant owner name _ => (∀ c ∈ owner.name.toList, c.val < 128) ∧ name ∈ used.globals
  | .function _ name .. => name ∈ used.globals
  | _ => True

namespace Vocabulary.Apart

variable {used : Vocabulary} {type owner : ExternalType} {name other : String}

theorem print_eq_iff (apart : used.Apart) (within : type.Within used) (isUsed : name ∈ used.types) :
    type.print = .ofType name ↔ sameName type.fullName name := by
  rw [within.print]
  exact ⟨apart.types _ within.listed _ isUsed, Fingerprint.ofType_congr⟩

theorem ofMember_eq_iff (apart : used.Apart) (within : type.Within used)
    (listed : (type.fullName, name) ∈ used.members) {around : String} (isUsed : (around, other) ∈ used.members) :
    Fingerprint.ofMember type.print name = .ofMember (.ofType around) other ↔
      sameName type.fullName around ∧ sameName name other := by
  rw [within.print]
  refine ⟨apart.members (type.fullName, name) listed (around, other) isUsed, fun ⟨owners, names⟩ => ?_⟩
  rw [Fingerprint.ofType_congr owners, Fingerprint.ofMember_congr names]

theorem ofGlobal_eq_iff (apart : used.Apart) (listed : name ∈ used.globals) (isUsed : other ∈ used.globals) :
    Fingerprint.ofGlobal name = .ofGlobal other ↔ sameName name other :=
  ⟨apart.globals _ listed _ isUsed, Fingerprint.ofGlobal_congr⟩

end Vocabulary.Apart

def Registration.type? : Registration → Option ExternalType
  | .type external => some external
  | _ => none

def Registration.member? : Registration → Option (ExternalType × SymbolMember)
  | .member owner name kind result arity =>
    some (owner, { owner := owner.print, name, kind, result, arity })
  | _ => none

def Registration.defaultMember? : Registration → Option (ExternalType × String)
  | .defaultMember owner name => some (owner, name)
  | _ => none

def Registration.function? : Registration → Option SymbolFunction
  | .function owner name result arity => some { name, owner, result, arity }
  | _ => none

/-! What the entries of a list say, read by their names. -/
namespace Listed

def types (entries : List Registration) : List ExternalType := entries.filterMap Registration.type?

def typeNamed? (entries : List Registration) (name : String) : Option ExternalType :=
  match (types entries).find? (sameName ·.fullName name) with
  | some type => some type
  | none =>
    match (types entries).filter (sameName ·.name name) with
    | [only] => some only
    | _ => none

/-- The first member of its name and type. -/
def member? (entries : List Registration) (owner name : String) : Option SymbolMember :=
  ((entries.filterMap Registration.member?).find? fun (type, member) =>
    sameName type.fullName owner && sameName member.name name).map Prod.snd

def lastDefault? (entries : List Registration) (owner : String) : Option (ExternalType × String) :=
  ((entries.filterMap Registration.defaultMember?).filter fun (type, _) =>
    sameName type.fullName owner).getLast?

def defaultMember? (entries : List Registration) (owner : String) : Option SymbolMember :=
  (lastDefault? entries owner).bind fun (_, name) => member? entries owner name

/-- Of the constants of a name the first that belongs to an enumeration, or else the first. -/
def constant? (entries : List Registration) (name : String) : Option SymbolConstant :=
  SymbolTable.preferred ((entries.filterMap Registration.constant?).filter (sameName ·.name name))

def function? (entries : List Registration) (name : String) : Option SymbolFunction :=
  (entries.filterMap Registration.function?).find? (sameName ·.name name)

/-- Whether an entry can be added to the listed ones: a type if its full name is new, a member if its type
is listed and its name is new within it, and a default member if it is listed. -/
def admits (entries : List Registration) : Registration → Bool
  | .type type => (types entries).all (!sameName ·.fullName type.fullName)
  | .member owner name .. =>
    (types entries).any (sameName ·.fullName owner.fullName) && (member? entries owner.fullName name).isNone
  | .defaultMember owner name => (member? entries owner.fullName name).isSome
  | _ => true

def accepted (entries : List Registration) : List Registration :=
  entries.foldl (fun earlier entry => if admits earlier entry then earlier ++ [entry] else earlier) []

section Concat

variable {entries : List Registration} {entry : Registration} {name owner : String}

theorem filterMap_concat {α β : Type} (f : α → Option β) (items : List α) (item : α) :
    (items ++ [item]).filterMap f = items.filterMap f ++ (f item).toList := by
  rw [List.filterMap_append]
  cases found : f item <;> simp [found]

theorem types_concat (entries : List Registration) (entry : Registration) :
    types (entries ++ [entry]) = types entries ++ entry.type?.toList := filterMap_concat ..

theorem member?_concat (owner name : String) : member? (entries ++ [entry]) owner name =
    (member? entries owner name).or (entry.member?.bind fun (type, member) =>
      if sameName type.fullName owner && sameName member.name name then some member else none) := by
  rw [member?, filterMap_concat, List.find?_append, Option.map_or, ← member?]
  cases entry.member? with
  | none => rfl
  | some member =>
    rw [Option.toList_some, List.find?_singleton]
    dsimp only [Option.bind_some]
    split <;> rfl

theorem member?_congr {owner' name' : String} (owners : sameName owner owner') (names : sameName name name') :
    member? entries owner name = member? entries owner' name' := by
  simp only [member?, sameName_right owners, sameName_right names]

theorem lastDefault?_concat (owner : String) : lastDefault? (entries ++ [entry]) owner =
    (entry.defaultMember?.filter fun (type, _) => sameName type.fullName owner).or (lastDefault? entries owner) := by
  rw [lastDefault?, filterMap_concat, List.filter_append, List.getLast?_append, ← lastDefault?]
  cases entry.defaultMember? with
  | none => rfl
  | some named =>
    by_cases same : sameName named.1.fullName owner <;> simp [Option.filter, same]

theorem types_of_other (other : entry.type? = none) : types (entries ++ [entry]) = types entries := by
  rw [types_concat, other]
  exact List.append_nil _

theorem member?_of_other (other : entry.member? = none) (owner name : String) :
    member? (entries ++ [entry]) owner name = member? entries owner name := by
  rw [member?_concat, other]
  exact Option.or_none

theorem lastDefault?_of_other (other : entry.defaultMember? = none) (owner : String) :
    lastDefault? (entries ++ [entry]) owner = lastDefault? entries owner := by
  rw [lastDefault?_concat, other]
  rfl

theorem accepted_concat (entries : List Registration) (entry : Registration) :
    accepted (entries ++ [entry]) =
      if admits (accepted entries) entry then accepted entries ++ [entry] else accepted entries := by
  rw [accepted, List.foldl_append]
  rfl

end Concat

section Accepted

variable {entries : List Registration} {entry : Registration} {name owner : String}

theorem accepted_subset (entries : List Registration) : accepted entries ⊆ entries := by
  induction entries using List.reverseRecOn with
  | nil => exact List.Subset.refl _
  | append_singleton entries entry ih =>
    have earlier := List.subset_append_of_subset_left [entry] ih
    rw [accepted_concat]
    split
    · exact List.append_subset.2 ⟨earlier, List.subset_append_right _ _⟩
    · exact earlier

theorem nodup_types_accepted (entries : List Registration) :
    ((types (accepted entries)).map fun type => FoldedName.of type.fullName).Nodup := by
  induction entries using List.reverseRecOn with
  | nil => exact List.nodup_nil
  | append_singleton entries entry ih =>
    rw [accepted_concat]
    split
    · rename_i fits
      rw [types_concat, List.map_append]
      cases entry with
      | type type =>
        refine List.nodup_append'.2 ⟨ih, List.nodup_singleton _, fun key old new => ?_⟩
        obtain ⟨earlier, listed, rfl⟩ := List.mem_map.1 old
        have apart := List.all_eq_true.1 fits earlier listed
        have same : FoldedName.of earlier.fullName = .of type.fullName := List.mem_singleton.1 new
        simp [sameName, same] at apart
      | _ => exact (List.append_nil _).symm ▸ ih
    · exact ih

theorem any_types_of_member? (isMember : (member? (accepted entries) owner name).isSome) :
    (types (accepted entries)).any (sameName ·.fullName owner) := by
  induction entries using List.reverseRecOn with
  | nil => exact nomatch isMember
  | append_singleton entries entry ih =>
    rw [accepted_concat] at isMember ⊢
    split
    · rename_i fits
      rw [if_pos fits, member?_concat, Option.isSome_or, Bool.or_eq_true] at isMember
      rw [types_concat, List.any_append, Bool.or_eq_true]
      left
      rcases isMember with old | new
      · exact ih old
      · cases entry with
        | member type name' kind result arity =>
          have same : sameName type.fullName owner := by
            by_contra apart
            simp [Registration.member?, apart] at new
          have known : (types (accepted entries)).any (sameName ·.fullName type.fullName) :=
            (Bool.and_eq_true_iff.1 fits).1
          simpa only [sameName_right same] using known
        | _ => exact nomatch new
    · rename_i unfit
      rw [if_neg unfit] at isMember
      exact ih isMember

end Accepted

end Listed

namespace SymbolTable

variable {used : Vocabulary} {table : SymbolTable} {log entries : List Registration} {entry : Registration}

/-- Whether the types and members of a table are those of the listed entries. -/
structure Agrees (used : Vocabulary) (table : SymbolTable) (log : List Registration) : Prop where
  types : ∀ name ∈ used.types,
    table.types[Fingerprint.ofType name]? = (Listed.types log).find? (sameName ·.fullName name)
  typeNames : ∀ name : String, table.typeNames.getD (.of name) [] = (Listed.types log).flatMap fun type =>
    (if sameName type.fullName name then [type.print] else []) ++
      if type.space ≠ "" ∧ sameName type.name name then [type.print] else []
  members : ∀ owner name, (owner, name) ∈ used.members →
    table.members[Fingerprint.ofMember (.ofType owner) name]? = Listed.member? log owner name
  defaultMembers : ∀ owner ∈ used.types, table.defaultMembers[Fingerprint.ofType owner]? =
    (Listed.lastDefault? log owner).map fun (type, name) => .ofMember type.print name

namespace Agrees

variable {type owner : ExternalType} {name : String}

theorem empty (used : Vocabulary) : Agrees used .empty [] where
  types name _ := by simp [SymbolTable.empty, Listed.types]
  typeNames name := by simp [SymbolTable.empty, Listed.types]
  members owner name _ := by simp [SymbolTable.empty, Listed.member?]
  defaultMembers owner _ := by simp [SymbolTable.empty, Listed.lastDefault?]

theorem contains_types (agrees : Agrees used table log) (within : type.Within used) :
    table.types.contains type.print = (Listed.types log).any (sameName ·.fullName type.fullName) := by
  rw [Std.HashMap.contains_eq_isSome_getElem?, within.print, agrees.types _ within.listed, List.isSome_find?]

theorem contains_members (agrees : Agrees used table log) (within : owner.Within used)
    (listed : (owner.fullName, name) ∈ used.members) : table.members.contains (.ofMember owner.print name) =
      (Listed.member? log owner.fullName name).isSome := by
  rw [Std.HashMap.contains_eq_isSome_getElem?, within.print, agrees.members _ _ listed]

theorem getD_noted (names : Std.HashMap FoldedName (List Fingerprint)) (spelt name : String)
    (print : Fingerprint) : (names.insert (.of spelt) (names.getD (.of spelt) [] ++ [print])).getD (.of name) [] =
      names.getD (.of name) [] ++ if sameName spelt name then [print] else [] := by
  rw [Std.HashMap.getD_insert, sameName]
  split
  · rename_i same
    rw [eq_of_beq same]
  · rw [List.append_nil]

theorem addType (apart : used.Apart) (agrees : Agrees used table log) (within : type.Within used)
    (fits : Listed.admits log (.type type)) :
    ∃ later, table.register (.type type) = .ok later ∧ Agrees used later (log ++ [.type type]) := by
  have new : table.types.contains type.print = false := by
    rw [agrees.contains_types within]
    simpa [Listed.admits] using fits
  rw [register, SymbolTable.addType, new]
  refine ⟨_, rfl, fun name isUsed => ?_, fun name => ?_, fun owner name listed => ?_, fun owner listed => ?_⟩
  · rw [Std.HashMap.getElem?_insert, agrees.types name isUsed, Listed.types_concat, List.find?_append]
    by_cases same : sameName type.fullName name
    · have absent : (Listed.types log).find? (sameName ·.fullName name) = none :=
        List.find?_eq_none.2 fun other listed => by
          have differs := List.all_eq_true.1 fits other listed
          rw [sameName_right same] at differs
          simpa using differs
      rw [if_pos (beq_iff_eq.2 ((apart.print_eq_iff within isUsed).2 same)), absent]
      simp [Registration.type?, same]
    · rw [if_neg fun print => same ((apart.print_eq_iff within isUsed).1 (beq_iff_eq.1 print))]
      simp [Registration.type?, same]
  -- A type without a namespace is noted once only, since its simple name is its full name.
  · rw [Listed.types_concat, List.flatMap_append, ← agrees.typeNames]
    have full := getD_noted table.typeNames type.fullName name type.print
    by_cases bare : type.space = ""
    · rw [if_pos (String.isEmpty_iff.2 bare)]
      exact full.trans (by simp [Registration.type?, bare])
    · rw [if_neg (mt String.isEmpty_iff.1 bare)]
      refine (getD_noted _ type.name name type.print).trans ?_
      refine (congrArg (· ++ _) full).trans ?_
      simp [Registration.type?, bare]
  · exact (agrees.members owner name listed).trans (Listed.member?_of_other rfl owner name).symm
  · exact (agrees.defaultMembers owner listed).trans
      (congrArg _ (Listed.lastDefault?_of_other rfl owner).symm)

theorem addMember (apart : used.Apart) (agrees : Agrees used table log) {kind : MemberKind}
    {result : Descriptor} {arity : Arity} (within : (Registration.member owner name kind result arity).Within used)
    (fits : Listed.admits log (.member owner name kind result arity)) :
    ∃ later, table.register (.member owner name kind result arity) = .ok later ∧
      Agrees used later (log ++ [.member owner name kind result arity]) := by
  obtain ⟨isOwner, listed⟩ := within
  obtain ⟨known, new⟩ := Bool.and_eq_true_iff.1 fits
  have here : table.types.contains owner.print := (agrees.contains_types isOwner).trans known
  have absent : ¬ table.members.contains (.ofMember owner.print name) := by
    rw [agrees.contains_members isOwner listed]
    simpa using new
  rw [register, SymbolTable.addMember]
  refine ⟨_, (if_neg (by simpa using here)).trans (if_neg absent), ?_, ?_, fun around other isUsed => ?_,
    fun around isUsed => ?_⟩
  · rw [Listed.types_of_other rfl]
    exact agrees.types
  · rw [Listed.types_of_other rfl]
    exact agrees.typeNames
  · rw [Std.HashMap.getElem?_insert, agrees.members _ _ isUsed, Listed.member?_concat]
    change (if Fingerprint.ofMember owner.print name == _ then _ else _) = _
    by_cases same : sameName owner.fullName around ∧ sameName name other
    · have none : Listed.member? log around other = none := by
        rw [← Listed.member?_congr same.1 same.2]
        simpa using new
      rw [if_pos (beq_iff_eq.2 ((apart.ofMember_eq_iff isOwner listed isUsed).2 same)), none]
      simp [Registration.member?, same]
    · rw [if_neg fun print => same ((apart.ofMember_eq_iff isOwner listed isUsed).1 (beq_iff_eq.1 print))]
      simp [Registration.member?, same]
  · exact (agrees.defaultMembers around isUsed).trans
      (congrArg _ (Listed.lastDefault?_of_other rfl around).symm)

theorem nameDefaultMember (apart : used.Apart) (agrees : Agrees used table log)
    (within : (Registration.defaultMember owner name).Within used)
    (fits : Listed.admits log (.defaultMember owner name)) :
    ∃ later, table.register (.defaultMember owner name) = .ok later ∧
      Agrees used later (log ++ [.defaultMember owner name]) := by
  obtain ⟨isOwner, listed⟩ := within
  have known : table.members.contains (.ofMember owner.print name) :=
    (agrees.contains_members isOwner listed).trans fits
  rw [register, SymbolTable.nameDefaultMember, known]
  refine ⟨_, rfl, ?_, ?_, fun around other isUsed => ?_, fun around isUsed => ?_⟩
  · rw [Listed.types_of_other rfl]
    exact agrees.types
  · rw [Listed.types_of_other rfl]
    exact agrees.typeNames
  · exact (agrees.members around other isUsed).trans (Listed.member?_of_other rfl around other).symm
  · rw [Std.HashMap.getElem?_insert, agrees.defaultMembers around isUsed, Listed.lastDefault?_concat]
    by_cases same : sameName owner.fullName around
    · rw [if_pos (beq_iff_eq.2 ((apart.print_eq_iff isOwner isUsed).2 same))]
      simp [Registration.defaultMember?, same, Option.filter]
    · rw [if_neg fun print => same ((apart.print_eq_iff isOwner isUsed).1 (beq_iff_eq.1 print))]
      simp [Registration.defaultMember?, same, Option.filter]

theorem of_other (agrees : Agrees used table log) (isType : entry.type? = none)
    (isMember : entry.member? = none) (isDefault : entry.defaultMember? = none) :
    Agrees used (table.next entry) (log ++ [entry]) := by
  have changes := changes_next table entry
  have types : Listed.types (log ++ [entry]) = Listed.types log := Listed.types_of_other isType
  obtain ⟨sameTypes, sameNames, sameMembers, sameDefaults⟩ : (table.next entry).types = table.types ∧
      (table.next entry).typeNames = table.typeNames ∧ (table.next entry).members = table.members ∧
      (table.next entry).defaultMembers = table.defaultMembers := by
    cases entry with
    | type => exact nomatch isType
    | member => exact nomatch isMember
    | defaultMember => exact nomatch isDefault
    | _ =>
      exact ⟨(congrArg SymbolTable.types changes).trans rfl, (congrArg SymbolTable.typeNames changes).trans rfl,
        (congrArg SymbolTable.members changes).trans rfl, (congrArg SymbolTable.defaultMembers changes).trans rfl⟩
  refine ⟨?_, ?_, fun owner name listed => ?_, fun owner listed => ?_⟩
  · rw [types, sameTypes]
    exact agrees.types
  · rw [types, sameNames]
    exact agrees.typeNames
  · rw [sameMembers, Listed.member?_of_other isMember]
    exact agrees.members owner name listed
  · rw [sameDefaults, Listed.lastDefault?_of_other isDefault]
    exact agrees.defaultMembers owner listed

theorem isOk_register (agrees : Agrees used table log) (within : entry.Within used)
    (fits : ¬ table.Stuck entry) : (table.register entry).isOk = Listed.admits log entry := by
  cases entry with
  | type type =>
    rw [register, SymbolTable.addType, agrees.contains_types within, Listed.admits, ← List.not_any_eq_all_not]
    cases (Listed.types log).any (sameName ·.fullName type.fullName) <;> rfl
  | member owner name kind result arity =>
    have known : table.members.contains (SymbolMember.print { owner := owner.print, name, kind, result, arity }) =
        (Listed.member? log owner.fullName name).isSome := agrees.contains_members within.1 within.2
    rw [register, SymbolTable.addMember, agrees.contains_types within.1, known, Listed.admits]
    cases (Listed.types log).any (sameName ·.fullName owner.fullName) <;>
      cases Listed.member? log owner.fullName name <;> rfl
  | defaultMember owner name =>
    rw [register, SymbolTable.nameDefaultMember, agrees.contains_members within.1 within.2, Listed.admits]
    cases (Listed.member? log owner.fullName name).isSome <;> rfl
  | constant owner name value =>
    cases added : table.register (.constant owner name value) with
    | ok later => rfl
    | error fault => exact absurd (stuck_of_error added) fits
  | _ => rfl

theorem next (apart : used.Apart) (agrees : Agrees used table log) (within : entry.Within used)
    (fits : ¬ table.Stuck entry) :
    Agrees used (table.next entry) (if Listed.admits log entry then log ++ [entry] else log) := by
  have added := agrees.isOk_register within fits
  split
  · rename_i admitted
    cases entry with
    | type type =>
      obtain ⟨later, isLater, agrees⟩ := agrees.addType apart within admitted
      rwa [SymbolTable.next, isLater]
    | member owner name kind result arity =>
      obtain ⟨later, isLater, agrees⟩ := agrees.addMember apart within admitted
      rwa [SymbolTable.next, isLater]
    | defaultMember owner name =>
      obtain ⟨later, isLater, agrees⟩ := agrees.nameDefaultMember apart within admitted
      rwa [SymbolTable.next, isLater]
    | _ => exact agrees.of_other rfl rfl rfl
  · rename_i unfit
    cases result : table.register entry with
    | ok later => exact absurd (added.symm.trans (congrArg Except.isOk result)) unfit
    | error fault => rwa [SymbolTable.next, result]

section Answers

theorem within_of_mem_types (within : ∀ entry ∈ log, entry.Within used) (listed : type ∈ Listed.types log) :
    type.Within used := by
  obtain ⟨entry, isEntry, isType⟩ := List.mem_filterMap.1 listed
  cases entry with
  | type external =>
    obtain rfl := Option.some.inj isType
    exact within _ isEntry
  | _ => exact nomatch isType

theorem flatMap_prints {types : List ExternalType} (simple : ∀ type ∈ types, ¬ sameName type.fullName name) :
    (types.flatMap fun type => (if sameName type.fullName name then [type.print] else []) ++
      if type.space ≠ "" ∧ sameName type.name name then [type.print] else []) =
        (types.filter (sameName ·.name name)).map (·.print) := by
  induction types with
  | nil => rfl
  | cons type types ih =>
    obtain ⟨first, rest⟩ := List.forall_mem_cons.1 simple
    rw [List.flatMap_cons, ih rest, if_neg first, List.nil_append, List.filter_cons]
    by_cases same : sameName type.name name
    · have spaced : type.space ≠ "" := fun bare => first (by
        rwa [ExternalType.fullName, qualified, if_pos (String.isEmpty_iff.2 bare)])
      rw [if_pos ⟨spaced, same⟩, if_pos same]
      rfl
    · rw [if_neg (same ·.2), if_neg same]
      rfl

theorem typeNamed?_eq (table : SymbolTable) (name : String) : table.typeNamed? name =
    (table.type? (.ofType name)).or (match table.typeNames.getD (.of name) [] with
      | [only] => table.type? only
      | _ => none) := by
  rw [SymbolTable.typeNamed?, Std.HashMap.getD_eq_getD_getElem?]
  cases table.type? (.ofType name)
  · rcases table.typeNames[FoldedName.of name]? with _ | _ | ⟨only, _ | _⟩ <;> rfl
  · rfl

theorem typeNamed? (agrees : Agrees used table log) (within : ∀ entry ∈ log, entry.Within used)
    (once : ((Listed.types log).map fun type => FoldedName.of type.fullName).Nodup) (isUsed : name ∈ used.types) :
    table.typeNamed? name = Listed.typeNamed? log name := by
  rw [typeNamed?_eq, SymbolTable.type?, agrees.types name isUsed, agrees.typeNames, Listed.typeNamed?]
  cases found : (Listed.types log).find? (sameName ·.fullName name) with
  | some type => rfl
  | none =>
    -- No full name is the given one, so what is noted for it are the types that have it as a simple name.
    rw [Option.none_or, flatMap_prints (List.find?_eq_none.1 found)]
    have listed (type) (isType : type ∈ (Listed.types log).filter (sameName ·.name name)) :
        table.type? type.print = some type := by
      have isType := (List.mem_filter.1 isType).1
      have isWithin := within_of_mem_types within isType
      rw [SymbolTable.type?, isWithin.print, agrees.types _ isWithin.listed]
      exact find?_of_nodup_map _ once isType
    rcases simple : (Listed.types log).filter (sameName ·.name name) with _ | ⟨only, _ | _⟩
    · rw [simple]
      rfl
    · rw [simple]
      exact listed only (simple ▸ List.mem_cons_self)
    · rw [simple]
      rfl

theorem defaultMember? (agrees : Agrees used table log) (within : ∀ entry ∈ log, entry.Within used)
    {owner : String} (isUsed : owner ∈ used.types) :
    table.defaultMember? (.ofType owner) = Listed.defaultMember? log owner := by
  rw [SymbolTable.defaultMember?, agrees.defaultMembers owner isUsed, Listed.defaultMember?]
  cases last : Listed.lastDefault? log owner with
  | none => rfl
  | some named =>
    obtain ⟨type, name⟩ := named
    obtain ⟨listed, same⟩ := List.mem_filter.1 (List.mem_of_getLast? last)
    obtain ⟨entry, isEntry, isDefault⟩ := List.mem_filterMap.1 listed
    cases entry with
    | defaultMember external other =>
      obtain ⟨rfl, rfl⟩ := Prod.ext_iff.1 (Option.some.inj isDefault)
      obtain ⟨isOwner, isMember⟩ := within _ isEntry
      change table.members[Fingerprint.ofMember external.print other]? = Listed.member? log owner other
      rw [isOwner.print, agrees.members _ _ isMember]
      exact Listed.member?_congr same (beq_self_eq_true _)
    | _ => exact nomatch isDefault

end Answers

end Agrees

section Globals

theorem functions_after (entries : List Registration) (print : Fingerprint) :
    (after entries).functions[print]? =
      (entries.filterMap Registration.function?).find? (·.print == print) := by
  induction entries using List.reverseRecOn with
  | nil => simp [after, SymbolTable.empty]
  | append_singleton entries entry ih =>
    rw [after_concat, Listed.filterMap_concat, List.find?_append, ← ih]
    have changes := changes_next (after entries) entry
    cases entry with
    | function owner name result arity =>
      change (addFunction _ _).functions[print]? = _
      rw [addFunction, Std.HashMap.contains_eq_isSome_getElem?, Registration.function?, Option.toList_some,
        List.find?_singleton]
      by_cases same : Fingerprint.ofGlobal name = print
      · subst same
        cases found : (after entries).functions[Fingerprint.ofGlobal name]? <;>
          simp [SymbolFunction.print, found]
      · split <;> simp [SymbolFunction.print, same, Std.HashMap.getElem?_insert]
    | _ => exact (congrArg (·.functions[print]?) changes).trans Option.or_none.symm

variable {name : String}

theorem constant?_after (apart : used.Apart) (within : ∀ entry ∈ entries, entry.Within used)
    (runs : Runs entries) (isUsed : name ∈ used.globals) :
    (after entries).constant? name = Listed.constant? entries name := by
  rw [SymbolTable.constant?, constants_after runs, Listed.constant?, homonyms]
  refine congrArg preferred (List.filter_congr fun constant listed => ?_)
  obtain ⟨entry, isEntry, isConstant⟩ := List.mem_filterMap.1 listed
  obtain ⟨owner, name', value, rfl, rfl⟩ := Registration.exists_of_constant? isConstant
  rw [Bool.eq_iff_iff, beq_iff_eq]
  exact apart.ofGlobal_eq_iff (within _ isEntry).2 isUsed

theorem function?_after (apart : used.Apart) (within : ∀ entry ∈ entries, entry.Within used)
    (isUsed : name ∈ used.globals) : (after entries).function? name = Listed.function? entries name := by
  rw [SymbolTable.function?, functions_after, Listed.function?, ← List.head?_filter, ← List.head?_filter]
  refine congrArg List.head? (List.filter_congr fun function listed => ?_)
  obtain ⟨entry, isEntry, isFunction⟩ := List.mem_filterMap.1 listed
  cases entry with
  | function owner name' result arity =>
    obtain rfl := Option.some.inj isFunction
    rw [Bool.eq_iff_iff, beq_iff_eq]
    exact apart.ofGlobal_eq_iff (within _ isEntry) isUsed
  | _ => exact nomatch isFunction

end Globals

section Run

theorem runs_of_within (within : ∀ entry ∈ entries, entry.Within used) : Runs entries := by
  refine runs_of_legible fun entry listed constant isConstant => ?_
  obtain ⟨owner, name, value, rfl, rfl⟩ := Registration.exists_of_constant? isConstant
  exact SymbolConstant.isLegible_of_ascii (within _ listed).1

theorem agrees_after (apart : used.Apart) (within : ∀ entry ∈ entries, entry.Within used) :
    Agrees used (after entries) (Listed.accepted entries) := by
  induction entries using List.reverseRecOn with
  | nil => exact .empty used
  | append_singleton entries entry ih =>
    obtain ⟨earlier, last⟩ := List.forall_mem_append.1 within
    rw [after_concat, Listed.accepted_concat]
    exact (ih earlier).next apart (List.forall_mem_singleton.1 last) (runs_concat.1 (runs_of_within within)).2

end Run

theorem after_of_error {fault : RegistrationFault} (failed : (after entries).register entry = .error fault)
    (more : List Registration) : after (entries ++ entry :: more) = after (entries ++ more) := by
  have unchanged : (after entries).next entry = after entries := by
    rw [next, failed]
    rfl
  rw [after, after, List.foldl_append, List.foldl_append, List.foldl_cons, ← after, unchanged]

/-- Where fingerprints tell the names apart that are used, a table answers by them what the entries say that
could be added, one after the other. A type is found by its full name, which no other type has, or else by
a simple name that it alone has; of the members of one name the first is found, whose type is in the table;
of the default members of a type the last; of the constants of one name the first of an enumeration, or else
the first; of the functions the first. An entry is added exactly if those before it admit it, and without it
all stays the same if it is not. -/
theorem after_lookups (used : Vocabulary) (apart : used.Apart) (entries : List Registration)
    (within : ∀ entry ∈ entries, entry.Within used) :
    ((Listed.types (Listed.accepted entries)).map fun type => FoldedName.of type.fullName).Nodup ∧
    (∀ name ∈ used.types, (after entries).typeNamed? name = Listed.typeNamed? (Listed.accepted entries) name) ∧
    (∀ owner name, (owner, name) ∈ used.members →
      (after entries).member? (.ofType owner) name = Listed.member? (Listed.accepted entries) owner name ∧
      ∀ member, (after entries).member? (.ofType owner) name = some member →
        ∃ type, (after entries).type? (.ofType owner) = some type ∧ sameName type.fullName owner) ∧
    (∀ owner ∈ used.types,
      (after entries).defaultMember? (.ofType owner) = Listed.defaultMember? (Listed.accepted entries) owner) ∧
    (∀ name ∈ used.globals, (after entries).constant? name = Listed.constant? entries name ∧
      (after entries).function? name = Listed.function? entries name) ∧
    (∀ entry, entry.Within used →
      ((after entries).register entry).isOk = Listed.admits (Listed.accepted entries) entry) ∧
    ∀ entry fault, (after entries).register entry = .error fault →
      ∀ more, after (entries ++ entry :: more) = after (entries ++ more) := by
  have agrees := agrees_after apart within
  have accepted (entry) (listed : entry ∈ Listed.accepted entries) : entry.Within used :=
    within entry (Listed.accepted_subset entries listed)
  have once := Listed.nodup_types_accepted entries
  have runs := runs_of_within within
  refine ⟨once, fun name => agrees.typeNamed? accepted once,
    fun owner name isUsed => ⟨agrees.members _ _ isUsed, ?_⟩,
    fun owner => agrees.defaultMember? accepted,
    fun name isUsed => ⟨constant?_after apart within runs isUsed, function?_after apart within isUsed⟩,
    fun entry isWithin => agrees.isOk_register isWithin ?_, fun entry fault failed => after_of_error failed⟩
  · intro member isMember
    have known : (Listed.member? (Listed.accepted entries) owner name).isSome :=
      Option.isSome_iff_exists.2 ⟨member, (agrees.members _ _ isUsed).symm.trans isMember⟩
    obtain ⟨type, listed, same⟩ := List.any_eq_true.1 (Listed.any_types_of_member? known)
    refine ⟨type, ?_, same⟩
    have isWithin := Agrees.within_of_mem_types accepted listed
    rw [SymbolTable.type?, ← Fingerprint.ofType_congr same, agrees.types _ isWithin.listed]
    exact find?_of_nodup_map _ once listed
  · refine (runs_concat.1 (runs_of_within (List.forall_mem_append.2 ⟨within, ?_⟩))).2
    exact List.forall_mem_singleton.2 isWithin

def twin (space : String) : ExternalType := { space, name := "F", assembly := { name := "Custom" } }

def twins : Vocabulary where
  types := {name | name ∈ ["A.F", "B.F", "F"]}
  members := {named | named ∈ [("B.F", "Value")]}
  globals := ∅

/-- Twins are found by their full names only, with their members. -/
theorem after_lookups_twins : ∃ table, table = after [.type (twin "A"), .type (twin "B"),
      .member (twin "B") "Value" .method .object .none] ∧
    (table.typeNamed? "F").isNone ∧ (table.typeNamed? "B.F").map (·.space) = some "B" ∧
    (table.member? (.ofType "B.F") "Value").map (·.kind) = some .method ∧
    (table.register (.type (twin "A"))).isOk = false := by
  have apart : twins.Apart := by
    refine ⟨?_, ?_, fun _ listed => nomatch listed⟩
    · change ∀ left ∈ ["A.F", "B.F", "F"], ∀ right ∈ ["A.F", "B.F", "F"], _
      decide +kernel
    · change ∀ left ∈ [("B.F", "Value")], ∀ right ∈ [("B.F", "Value")], _
      decide +kernel
  have within (space : String) (listed : (twin space).fullName ∈ ["A.F", "B.F", "F"]) :
      (twin space).Within twins := ⟨rfl, listed⟩
  have isA := within "A" (by decide +kernel)
  have isB := within "B" (by decide +kernel)
  have isMember : (Registration.member (twin "B") "Value" .method .object .none).Within twins :=
    ⟨isB, List.mem_singleton.2 (Prod.ext (by decide +kernel) rfl)⟩
  obtain ⟨-, types, members, -, -, admitted, -⟩ := after_lookups twins apart
    [.type (twin "A"), .type (twin "B"), .member (twin "B") "Value" .method .object .none]
    (by simpa using ⟨isA, isB, isMember⟩)
  refine ⟨_, rfl, ?_, ?_, ?_, ?_⟩
  · rw [types "F" (List.mem_of_elem_eq_true rfl)]
    decide +kernel
  · rw [types "B.F" (List.mem_of_elem_eq_true rfl)]
    decide +kernel
  · rw [(members "B.F" "Value" (List.mem_singleton.2 rfl)).1]
    decide +kernel
  · rw [admitted (.type (twin "A")) isA]
    decide +kernel

end SymbolTable

end ScriptMigration
