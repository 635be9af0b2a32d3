import ScriptMigration.Proofs.SymbolTable.Namespaces
import ScriptMigration.Proofs.Token.Case
import ScriptMigration.Proofs.Token.Quoted

/-! The constants of a symbol table. Of the constants of one name the first whose type is an enumeration
is kept, or else the first. Whether a type is an enumeration is read off the last four bytes of its name,
which need not begin with a character: then no answer can be had, but it is only asked for when a second
constant has the name and none before it belongs to an enumeration. -/
namespace ScriptMigration

def IsLegible (name : String) : Prop :=
  name.utf8ByteSize < 4 ∨ String.Pos.Raw.IsValid name ⟨name.utf8ByteSize - 4⟩

instance (name : String) : Decidable (IsLegible name) :=
  inferInstanceAs (Decidable (name.utf8ByteSize < 4 ∨ _))

def EndsInEnum (name : String) : Prop := "enum".toList <:+ (foldCase name).toList

instance (name : String) : Decidable (EndsInEnum name) :=
  inferInstanceAs (Decidable ("enum".toList <:+ (foldCase name).toList))

namespace SymbolConstant

open Lexer

section Endings

variable {text ending : List Char}

theorem byteWidth_cons (c : Char) (text : List Char) : byteWidth (c :: text) = c.utf8Size + byteWidth text := rfl

theorem byteWidth_append (left right : List Char) :
    byteWidth (left ++ right) = byteWidth left + byteWidth right := by
  rw [byteWidth, List.map_append, List.sum_append]
  rfl

theorem byteWidth_of_ascii (ascii : ∀ c ∈ text, c.val < 128) :
    byteWidth text = text.length := by
  induction text with
  | nil => rfl
  | cons c text ih =>
    obtain ⟨first, rest⟩ := List.forall_mem_cons.1 ascii
    have single : c.utf8Size = 1 := Char.utf8Size_eq_one_iff.2 (by
      rw [UInt32.lt_iff_toNat_lt] at first
      exact UInt32.le_iff_toNat_le.2 (Nat.le_of_lt_succ first))
    rw [byteWidth_cons, ih rest, single, List.length_cons, Nat.add_comm]

theorem go_eq_some_iff (skip : Nat) : lastBytes?.go skip text = some ending ↔
    ∃ before, text = before ++ ending ∧ byteWidth before = skip := by
  induction text generalizing skip with
  | nil =>
    rw [lastBytes?.go]
    constructor
    · intro kept
      split at kept
      · rename_i none
        exact ⟨[], Option.some.inj kept, (eq_of_beq none).symm⟩
      · exact nomatch kept
    · rintro ⟨before, whole, rfl⟩
      obtain ⟨rfl, rfl⟩ := List.append_eq_nil_iff.1 whole.symm
      rfl
  | cons c rest ih =>
    -- Either nothing is skipped, or the first character is.
    have first : (∃ before, c :: rest = before ++ ending ∧ byteWidth before = skip) ↔
        skip = 0 ∧ c :: rest = ending ∨
          ∃ before, rest = before ++ ending ∧ c.utf8Size + byteWidth before = skip := by
      constructor
      · rintro ⟨_ | ⟨first, before⟩, whole, rfl⟩
        · exact .inl ⟨rfl, whole⟩
        · obtain ⟨rfl, rfl⟩ := List.cons.inj whole
          exact .inr ⟨before, rfl, rfl⟩
      · rintro (⟨rfl, rfl⟩ | ⟨before, rfl, rfl⟩)
        · exact ⟨[], rfl, rfl⟩
        · exact ⟨c :: before, rfl, rfl⟩
    have positive := c.utf8Size_pos
    rw [first, lastBytes?.go]
    split
    · rename_i none
      obtain rfl := eq_of_beq none
      simp [positive.ne']
    · rename_i more
      have more : skip ≠ 0 := by simpa using more
      simp only [more, false_and, false_or]
      split
      · rw [ih]
        refine exists_congr fun before => and_congr_right fun _ => ?_
        omega
      · refine iff_of_false nofun ?_
        rintro ⟨before, -, rfl⟩
        omega

theorem lastBytes?_eq_some_iff {count : Nat} (fits : count ≤ byteWidth text) :
    lastBytes? count text = some ending ↔ ∃ before, text = before ++ ending ∧ byteWidth ending = count := by
  refine (go_eq_some_iff _).trans (exists_congr fun before => and_congr_right ?_)
  rintro rfl
  change byteWidth before = byteWidth (before ++ ending) - count ↔ _
  rw [byteWidth_append] at fits ⊢
  omega

end Endings

theorem byteWidth_toList (text : String) : byteWidth text.toList = text.utf8ByteSize := by
  rw [byteWidth_ofList, String.ofList_toList]

theorem isLegible_iff {name : String} (long : 4 ≤ name.utf8ByteSize) :
    IsLegible name ↔ ∃ before ending, name.toList = before ++ ending ∧ byteWidth ending = 4 := by
  rw [IsLegible, or_iff_right (by omega), String.Pos.Raw.isValid_iff_exists_append]
  constructor
  · rintro ⟨front, ending, rfl, start⟩
    refine ⟨front.toList, ending.toList, String.toList_append, ?_⟩
    have start := congrArg String.Pos.Raw.byteIdx start
    rw [byteWidth_toList]
    simp only [String.byteIdx_rawEndPos, String.utf8ByteSize_append] at start long
    omega
  · rintro ⟨front, ending, whole, four⟩
    have same : name = String.ofList front ++ String.ofList ending := by
      rw [← String.ofList_append, ← whole, String.ofList_toList]
    refine ⟨_, _, same, String.Pos.Raw.ext ?_⟩
    rw [byteWidth_ofList] at four
    rw [same, String.byteIdx_rawEndPos, String.utf8ByteSize_append]
    dsimp only
    omega

theorem isLegible_of_ascii {name : String} (ascii : ∀ c ∈ name.toList, c.val < 128) : IsLegible name := by
  by_cases long : 4 ≤ name.utf8ByteSize
  · have width := byteWidth_of_ascii ascii
    rw [byteWidth_toList] at width
    refine (isLegible_iff long).2
      ⟨_, name.toList.drop (name.toList.length - 4), (List.take_append_drop _ _).symm, ?_⟩
    rw [byteWidth_of_ascii fun c listed => ascii c (List.mem_of_mem_drop listed), List.length_drop]
    omega
  · exact .inl (by omega)

theorem sameName_enum_iff (ending : List Char) :
    sameName (String.ofList ending) "enum" ↔ ending.map Char.toLower = "enum".toList := by
  have word : (foldCase "enum").toList = "enum".toList := by decide +kernel
  rw [sameName_iff_foldCase, ← String.toList_inj, word, foldCase, FoldedName.of, String.toList_map,
    String.toList_ofList]

theorem endsInEnum_iff {name : String} : EndsInEnum name ↔ ∃ before ending,
    name.toList = before ++ ending ∧ byteWidth ending = 4 ∧ sameName (String.ofList ending) "enum" := by
  rw [EndsInEnum, foldCase, FoldedName.of, String.toList_map]
  constructor
  · rintro ⟨before, whole⟩
    obtain ⟨front, ending, isName, -, isEnding⟩ := List.map_eq_append_iff.1 whole.symm
    refine ⟨front, ending, isName, ?_, (sameName_enum_iff ending).2 isEnding⟩
    rw [← byteWidth_lower, Text.lower, isEnding]
    rfl
  · rintro ⟨front, ending, whole, -, same⟩
    refine ⟨front.map Char.toLower, ?_⟩
    rw [whole, List.map_append, (sameName_enum_iff ending).1 same]

theorem fromEnumeration?_eq (constant : SymbolConstant) : constant.fromEnumeration? =
    if IsLegible constant.owner.name then some (decide (EndsInEnum constant.owner.name)) else none := by
  unfold fromEnumeration?
  generalize constant.owner.name = name
  dsimp only
  split
  · rename_i short
    have apart : ¬ EndsInEnum name := fun ends => by
      obtain ⟨before, ending, whole, four, -⟩ := endsInEnum_iff.1 ends
      rw [← byteWidth_toList, whole, byteWidth_append, four] at short
      omega
    rw [if_pos (.inl short), decide_eq_false apart]
  · rename_i short
    have long : 4 ≤ name.utf8ByteSize := by omega
    have taken (ending : List Char) : lastBytes? 4 name.toList = some ending ↔
        ∃ before, name.toList = before ++ ending ∧ byteWidth ending = 4 :=
      lastBytes?_eq_some_iff (by rwa [byteWidth_toList])
    cases found : lastBytes? 4 name.toList with
    | none =>
      rw [if_neg, Option.map_none]
      rintro legible
      obtain ⟨before, ending, split⟩ := (isLegible_iff long).1 legible
      exact nomatch found.symm.trans ((taken ending).2 ⟨before, split⟩)
    | some ending =>
      obtain ⟨before, whole, four⟩ := (taken ending).1 found
      rw [if_pos ((isLegible_iff long).2 ⟨before, ending, whole, four⟩), Option.map_some, Option.some_inj,
        Bool.eq_iff_iff, decide_eq_true_eq, endsInEnum_iff]
      refine ⟨fun same => ⟨before, ending, whole, four, same⟩, ?_⟩
      rintro ⟨before', ending', whole', four', same⟩
      rwa [Option.some.inj (found.symm.trans ((taken ending').2 ⟨before', whole', four'⟩))]

theorem isLegible_of_endsInEnum {name : String} (ends : EndsInEnum name) : IsLegible name := by
  obtain ⟨before, ending, whole, four, -⟩ := endsInEnum_iff.1 ends
  refine (isLegible_iff ?_).2 ⟨before, ending, whole, four⟩
  rw [← byteWidth_toList, whole, byteWidth_append, four]
  omega

end SymbolConstant

theorem forall_split_concat {α : Type} {holds : List α → α → Prop} {items : List α} {item : α} :
    (∀ before here rest, items ++ [item] = before ++ here :: rest → holds before here) ↔
      (∀ before here rest, items = before ++ here :: rest → holds before here) ∧ holds items item := by
  refine ⟨fun all => ⟨fun before here rest whole => all before here (rest ++ [item]) ?_, ?_⟩, ?_⟩
  · rw [whole, List.append_assoc, List.cons_append]
  · exact all items item [] rfl
  · rintro ⟨earlier, last⟩ before here rest whole
    rcases List.eq_nil_or_concat rest with rfl | ⟨rest, final, rfl⟩
    · obtain ⟨rfl, same⟩ := List.append_inj' whole rfl
      obtain rfl := (List.cons.inj same).1
      exact last
    · rw [List.concat_eq_append, ← List.cons_append, ← List.append_assoc] at whole
      exact earlier before here rest (List.append_inj' whole rfl).1

def Registration.constant? : Registration → Option SymbolConstant
  | .constant owner name value => some { name, owner, value }
  | _ => none

theorem Registration.exists_of_constant? {entry : Registration} {constant : SymbolConstant}
    (isConstant : entry.constant? = some constant) :
    ∃ owner name value, entry = .constant owner name value ∧ constant = { name, owner, value } := by
  cases entry with
  | constant owner name value => exact ⟨owner, name, value, rfl, (Option.some.inj isConstant).symm⟩
  | _ => exact nomatch isConstant

def Registration.Changes (table later : SymbolTable) : Registration → Prop
  | .type _ => later = { table with
      types := later.types, typeNames := later.typeNames, namespaces := later.namespaces }
  | .member .. => later = { table with members := later.members }
  | .defaultMember .. => later = { table with defaultMembers := later.defaultMembers }
  | .constant .. => later = { table with constants := later.constants }
  | .function .. => later = { table with functions := later.functions }
  | .className .. => later = { table with classNames := later.classNames }
  | .specialName .. => later = { table with specialNames := later.specialNames }
  | .formMember .. => later = { table with formMembers := later.formMembers }
  | .formType _ => later = { table with formType := later.formType }
  | .errorType _ => later = { table with errorType := later.errorType }
  | .applicationType _ => later = { table with applicationType := later.applicationType }

namespace SymbolTable

variable {table : SymbolTable} {entries : List Registration} {entry : Registration}

theorem changes_next (table : SymbolTable) (entry : Registration) : entry.Changes table (table.next entry) := by
  cases entry with
  | type type =>
    rw [next, register, addType]
    split <;> rfl
  | member owner name kind result arity =>
    rw [next, register, addMember]
    split
    · rfl
    · split <;> rfl
  | defaultMember owner name =>
    rw [next, register, nameDefaultMember]
    split <;> rfl
  | constant owner name value =>
    rw [next, register, addConstant]
    split
    · rfl
    · split
      · rfl
      · rfl
      · split <;> rfl
  | function owner name result arity =>
    change Registration.Changes _ (addFunction _ _) _
    unfold addFunction
    split <;> rfl
  | _ => rfl

def homonyms (entries : List Registration) (print : Fingerprint) : List SymbolConstant :=
  (entries.filterMap Registration.constant?).filter (·.print == print)

def preferred (constants : List SymbolConstant) : Option SymbolConstant :=
  (constants.find? fun constant => decide (EndsInEnum constant.owner.name)).or constants.head?

def Stuck (table : SymbolTable) (entry : Registration) : Prop :=
  ∃ name, table.register entry = .error (.unreadableEnding name)

def Runs (entries : List Registration) : Prop :=
  ∀ before entry rest, entries = before ++ entry :: rest → ¬ (after before).Stuck entry

section Preferred

variable {constants : List SymbolConstant} {constant : SymbolConstant}

theorem preferred_concat (constants : List SymbolConstant) (constant : SymbolConstant) :
    preferred (constants ++ [constant]) = match preferred constants with
      | none => some constant
      | some existing =>
        if ¬ EndsInEnum existing.owner.name ∧ EndsInEnum constant.owner.name then some constant
        else some existing := by
  unfold preferred
  rw [List.find?_append, List.find?_singleton]
  cases found : constants.find? fun constant => decide (EndsInEnum constant.owner.name) with
  | some first =>
    have ends : EndsInEnum first.owner.name := by simpa using List.find?_some found
    simp [ends]
  | none =>
    cases constants with
    | nil => by_cases ends : EndsInEnum constant.owner.name <;> simp [ends]
    | cons first rest =>
      have plain : ¬ EndsInEnum first.owner.name := by simpa using List.find?_eq_none.1 found first
      by_cases ends : EndsInEnum constant.owner.name <;> simp [ends, plain]

theorem preferred_plain_iff : (preferred constants = some constant ∧ ¬ EndsInEnum constant.owner.name) ↔
    constants.head? = some constant ∧ ∀ other ∈ constants, ¬ EndsInEnum other.owner.name := by
  unfold preferred
  cases found : constants.find? fun constant => decide (EndsInEnum constant.owner.name) with
  | some first =>
    have ends : EndsInEnum first.owner.name := by simpa using List.find?_some found
    refine iff_of_false ?_ fun plain => plain.2 first (List.mem_of_find?_eq_some found) ends
    rintro ⟨same, plain⟩
    obtain rfl := Option.some.inj same
    exact plain ends
  | none =>
    have plain : ∀ other ∈ constants, ¬ EndsInEnum other.owner.name := by
      simpa using List.find?_eq_none.1 found
    rw [Option.none_or]
    exact and_congr_right fun isHead => iff_of_true (plain _ (List.mem_of_mem_head? isHead)) plain

end Preferred

section Stuck

variable {owner : ExternalType} {name : String} {value : Descriptor}

theorem print_mk (name : String) (owner : ExternalType) (value : Descriptor) :
    SymbolConstant.print { name, owner, value } = .ofGlobal name := rfl

theorem homonyms_append (entries more : List Registration) (print : Fingerprint) :
    homonyms (entries ++ more) print = homonyms entries print ++ homonyms more print := by
  rw [homonyms, List.filterMap_append, List.filter_append]
  rfl

theorem homonyms_constant (owner : ExternalType) (name : String) (value : Descriptor) (print : Fingerprint) :
    homonyms [.constant owner name value] print =
      if Fingerprint.ofGlobal name = print then [{ name, owner, value }] else [] := by
  by_cases same : Fingerprint.ofGlobal name = print <;> simp [homonyms, Registration.constant?, print_mk, same]

theorem homonyms_of_other (other : entry.constant? = none) (print : Fingerprint) :
    homonyms [entry] print = [] := by
  simp [homonyms, other]

theorem addConstant_eq (table : SymbolTable) (constant : SymbolConstant) :
    table.addConstant constant = match table.constants[constant.print]? with
      | none => .ok { table with constants := table.constants.insert constant.print constant }
      | some existing =>
        if ¬ IsLegible existing.owner.name then .error (.unreadableEnding existing.owner.name)
        else if EndsInEnum existing.owner.name then .ok table
        else if ¬ IsLegible constant.owner.name then .error (.unreadableEnding constant.owner.name)
        else if EndsInEnum constant.owner.name then
          .ok { table with constants := table.constants.insert constant.print constant }
        else .ok table := by
  rw [addConstant]
  cases table.constants[constant.print]? with
  | none => rfl
  | some existing =>
    simp only [SymbolConstant.fromEnumeration?_eq]
    by_cases legible : IsLegible existing.owner.name
    · by_cases ends : EndsInEnum existing.owner.name
      · simp [legible, ends]
      · by_cases legible' : IsLegible constant.owner.name
        · by_cases ends' : EndsInEnum constant.owner.name <;> simp [legible, ends, legible', ends']
        · simp [legible, ends, legible']
    · simp [legible]

/-- A constant is stuck on another one of its name that does not belong to an enumeration, unless both
their types have legible names. -/
theorem stuck_constant_iff : table.Stuck (.constant owner name value) ↔
    ∃ existing, table.constants[Fingerprint.ofGlobal name]? = some existing ∧
      ¬ EndsInEnum existing.owner.name ∧ ¬ (IsLegible existing.owner.name ∧ IsLegible owner.name) := by
  rw [Stuck, register, addConstant_eq, print_mk]
  cases table.constants[Fingerprint.ofGlobal name]? with
  | none => simp
  | some existing =>
    by_cases ends : EndsInEnum existing.owner.name
    · simp [ends, SymbolConstant.isLegible_of_endsInEnum ends]
    · by_cases legible : IsLegible existing.owner.name
      · by_cases legible' : IsLegible owner.name
        · by_cases ends' : EndsInEnum owner.name <;> simp [legible, ends, legible', ends']
        · simp [legible, ends, legible']
      · simp [legible, ends]

theorem constants_next (runs : ¬ table.Stuck (.constant owner name value)) (print : Fingerprint) :
    (table.next (.constant owner name value)).constants[print]? =
      if Fingerprint.ofGlobal name = print then
        match table.constants[print]? with
        | none => some { name, owner, value }
        | some existing =>
          if ¬ EndsInEnum existing.owner.name ∧ EndsInEnum owner.name then some { name, owner, value }
          else some existing
      else table.constants[print]? := by
  rw [stuck_constant_iff] at runs
  push Not at runs
  rw [next, register, addConstant_eq, print_mk]
  by_cases same : Fingerprint.ofGlobal name = print
  · subst same
    rw [if_pos rfl]
    cases found : table.constants[Fingerprint.ofGlobal name]? with
    | none => simp [Except.toOption]
    | some existing =>
      by_cases ends : EndsInEnum existing.owner.name
      · simp [ends, SymbolConstant.isLegible_of_endsInEnum ends, Except.toOption, found]
      · have legible := runs existing found ends
        by_cases ends' : EndsInEnum owner.name <;> simp [ends, ends', legible, Except.toOption, found]
  · rw [if_neg same]
    have kept (constant : SymbolConstant) :
        (table.constants.insert (.ofGlobal name) constant)[print]? = table.constants[print]? := by
      rw [Std.HashMap.getElem?_insert, if_neg (by simpa using same)]
    cases found : table.constants[Fingerprint.ofGlobal name]? with
    | none => simp [Except.toOption, kept]
    | some existing =>
      dsimp only
      split
      · rfl
      · split
        · rfl
        · split
          · rfl
          · split <;> simp [Except.toOption, kept]

theorem exists_constant_of_stuck (stuck : table.Stuck entry) :
    ∃ owner name value, entry = .constant owner name value := by
  obtain ⟨text, stuck⟩ := stuck
  cases entry with
  | constant owner name value => exact ⟨owner, name, value, rfl⟩
  | type type =>
    rw [register, addType] at stuck
    split at stuck <;> simp at stuck
  | member owner name kind result arity =>
    rw [register, addMember] at stuck
    split at stuck
    · simp at stuck
    · split at stuck <;> simp at stuck
  | defaultMember owner name =>
    rw [register, nameDefaultMember] at stuck
    split at stuck <;> simp at stuck
  | _ => cases stuck

theorem stuck_of_error {fault : RegistrationFault}
    (failed : table.register (.constant owner name value) = .error fault) :
    table.Stuck (.constant owner name value) := by
  refine Exists.imp (fun _ isFault => failed.trans (congrArg _ isFault)) ?_
  rw [register, addConstant] at failed
  split at failed
  · cases failed
  · split at failed
    · exact ⟨_, (Except.error.inj failed).symm⟩
    · cases failed
    · split at failed
      · exact ⟨_, (Except.error.inj failed).symm⟩
      · cases failed
      · cases failed

theorem constants_next_of_other (other : entry.constant? = none) :
    (table.next entry).constants = table.constants := by
  have changes := changes_next table entry
  cases entry with
  | constant owner name value => exact nomatch other
  | _ => exact (congrArg constants changes).trans rfl

end Stuck

theorem runs_concat : Runs (entries ++ [entry]) ↔ Runs entries ∧ ¬ (after entries).Stuck entry :=
  forall_split_concat

theorem constants_after (runs : Runs entries) (print : Fingerprint) :
    (after entries).constants[print]? = preferred (homonyms entries print) := by
  induction entries using List.reverseRecOn with
  | nil => simp [after, empty, homonyms, preferred]
  | append_singleton entries entry ih =>
    obtain ⟨earlier, fits⟩ := runs_concat.1 runs
    rw [after_concat, homonyms_append]
    cases isConstant : entry.constant? with
    | none =>
      rw [constants_next_of_other isConstant, ih earlier, homonyms_of_other isConstant, List.append_nil]
    | some constant =>
      obtain ⟨owner, name, value, rfl, rfl⟩ := Registration.exists_of_constant? isConstant
      rw [constants_next fits, ih earlier, homonyms_constant]
      by_cases same : Fingerprint.ofGlobal name = print
      · rw [if_pos same, if_pos same, preferred_concat]
      · rw [if_neg same, if_neg same, List.append_nil]

/-- Entries are registered without being stuck exactly if the first two constants of a name have types with
legible names, and so have later ones for as long as none belongs to an enumeration. -/
theorem runs_iff (entries : List Registration) : Runs entries ↔
    ∀ before entry rest, entries = before ++ entry :: rest → ∀ constant ∈ entry.constant?,
      ∀ first ∈ (homonyms before constant.print).head?,
        (∀ other ∈ homonyms before constant.print, ¬ EndsInEnum other.owner.name) →
          IsLegible first.owner.name ∧ IsLegible constant.owner.name := by
  induction entries using List.reverseRecOn with
  | nil => simp [Runs]
  | append_singleton entries entry ih =>
    rw [runs_concat, forall_split_concat, ← ih]
    refine and_congr_right fun runs => ?_
    cases isConstant : entry.constant? with
    | none =>
      refine iff_of_true (fun stuck => ?_) fun _ isSome => nomatch isSome
      obtain ⟨owner, name, value, rfl⟩ := exists_constant_of_stuck stuck
      exact nomatch isConstant
    | some constant =>
      obtain ⟨owner, name, value, rfl, rfl⟩ := Registration.exists_of_constant? isConstant
      rw [stuck_constant_iff, constants_after runs]
      simp only [← and_assoc, preferred_plain_iff, not_exists]
      constructor
      · rintro free _ ⟨⟩ first isFirst plain
        by_contra apart
        exact free first ⟨⟨isFirst, plain⟩, apart⟩
      · rintro legible first ⟨⟨isFirst, plain⟩, apart⟩
        exact apart (legible _ rfl first isFirst plain)

theorem runs_of_legible (legible : ∀ entry ∈ entries, ∀ constant ∈ entry.constant?,
    IsLegible constant.owner.name) : Runs entries := by
  refine (runs_iff entries).2 ?_
  rintro before entry rest rfl constant isConstant first isFirst -
  refine ⟨?_, legible entry (by simp) constant isConstant⟩
  have among := (List.mem_filter.1 (List.mem_of_mem_head? isFirst)).1
  obtain ⟨earlier, listed, isFirst⟩ := List.mem_filterMap.1 among
  exact legible earlier (List.mem_append_left _ listed) first isFirst

section Namespaces

theorem namespaces_next (table : SymbolTable) (entry : Registration) :
    (table.next entry).namespaces = table.namespaces ∨ ∃ space name,
      (table.next entry).namespaces = table.namespaces.addType (namespaceParts space) name := by
  rw [next]
  cases added : table.register entry with
  | error fault => exact .inl rfl
  | ok later =>
    rcases register_types added with ⟨type, -, -, -, same⟩ | ⟨-, same⟩
    · exact .inr ⟨_, _, same⟩
    · exact .inl same

theorem number?_after {parts : List String} {number : Nat}
    (isNumber : (after entries).namespaces.number? parts = some number) (more : List Registration) :
    (after (entries ++ more)).namespaces.number? parts = some number := by
  induction more using List.reverseRecOn with
  | nil => rwa [List.append_nil]
  | append_singleton more entry ih =>
    rw [← List.append_assoc, after_concat]
    rcases namespaces_next (after (entries ++ more)) entry with same | ⟨space, name, same⟩
    · rwa [same]
    · rw [same]
      exact NamespaceTable.number?_addType ih _ _

end Namespaces

/-- Nothing that is registered meets a name that it cannot read, exactly if the first two constants of a
name have types with legible names, and so have later ones for as long as none belongs to an enumeration. A
namespace that has a number is found by it, now and whatever else is registered. -/
theorem after_safe (entries : List Registration) :
    (Runs entries ↔ ∀ before entry rest, entries = before ++ entry :: rest → ∀ constant ∈ entry.constant?,
      ∀ first ∈ (homonyms before constant.print).head?,
        (∀ other ∈ homonyms before constant.print, ¬ EndsInEnum other.owner.name) →
          IsLegible first.owner.name ∧ IsLegible constant.owner.name) ∧
    ∀ parts number, (after entries).namespaces.number? parts = some number → ∀ more,
      ∃ space, (after (entries ++ more)).namespaces.entries[number]? = some space ∧
        (after (entries ++ more)).namespaces.get? parts = some space :=
  ⟨runs_iff entries, fun _ _ isNumber more => NamespaceTable.exists_of_number? (number?_after isNumber more)⟩

def illegible : ExternalType := { space := "", name := "éabc", assembly := { name := "Custom" } }

/-- It is stuck on the second of its constants of one name. -/
theorem not_runs_illegible : ¬ Runs [.constant illegible "x" (.ofPrimitive .int32),
    .constant illegible "x" (.ofPrimitive .int32)] := by
  intro runs
  have isHomonym := homonyms_constant illegible "x" (.ofPrimitive .int32) (.ofGlobal "x")
  rw [if_pos rfl] at isHomonym
  have plain : ¬ EndsInEnum illegible.name := by decide +kernel
  have legible := (runs_iff _).1 runs [_] _ [] rfl _ rfl _ (congrArg List.head? isHomonym) fun other listed => by
    obtain rfl := List.mem_singleton.1 (isHomonym ▸ listed)
    exact plain
  exact absurd legible.1 (by decide +kernel)

end SymbolTable

end ScriptMigration
