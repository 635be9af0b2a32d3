import ScriptMigration.Proofs.List.Repeats
import ScriptMigration.Proofs.Text.Name
import ScriptMigration.SymbolTable.Standard

/-! The namespaces of a symbol table. Whatever is registered, a type that the table lists is declared by
its namespace, and a namespace without empty parts is spelt as it was written but for the case of its
letters. -/
namespace ScriptMigration

namespace Text

theorem splitChars_eq_splitOnP (cut : Char → Bool) (text : List Char) :
    splitChars cut text = text.splitOnP cut := by
  induction text with
  | nil => rfl
  | cons c text ih =>
    rw [splitChars, ih, List.splitOnP_cons_eq_if_modifyHead]
    obtain ⟨piece, pieces, found⟩ := List.exists_cons_of_ne_nil (List.splitOnP_ne_nil cut text)
    rw [found]
    rfl

theorem splitChars_map (f : Char → Char) (cut : Char → Bool) (text : List Char) :
    splitChars cut (text.map f) = (splitChars (cut ∘ f) text).map (List.map f) := by
  induction text with
  | nil => rfl
  | cons c text ih =>
    rw [List.map_cons, splitChars, ih, splitChars]
    cases splitChars (cut ∘ f) text with
    | nil => rfl
    | cons piece pieces =>
      rw [List.map_cons, Function.comp_apply]
      dsimp only
      split <;> rfl

theorem intercalate_splitAt (text : String) : ".".intercalate (splitAt '.' text) = text := by
  have pieces : (splitAt '.' text).map String.toList = text.toList.splitOn '.' := by
    rw [splitAt, splitChars_eq_splitOnP, List.map_map]
    simp [Function.comp_def, List.splitOn]
  rw [← String.toList_inj, String.toList_intercalate, pieces]
  exact List.intercalate_splitOn '.'

theorem map_intercalate {α β : Type} (f : α → β) (mark : List α) (pieces : List (List α)) :
    (mark.intercalate pieces).map f = (mark.map f).intercalate (pieces.map (List.map f)) := by
  induction pieces with
  | nil => rfl
  | cons piece pieces ih =>
    cases pieces with
    | nil => simp
    | cons next pieces => simp [ih]

end Text

def IsPath (space : String) : Prop := ∀ part ∈ Text.splitAt '.' space, part ≠ ""

instance (space : String) : Decidable (IsPath space) :=
  inferInstanceAs (Decidable (∀ part ∈ Text.splitAt '.' space, part ≠ ""))

theorem namespaceParts_eq {space : String} (isPath : IsPath space) :
    namespaceParts space = Text.splitAt '.' space :=
  List.filter_eq_self.2 fun part listed => by simpa using isPath part listed

theorem IsPath.filled {space : String} (isPath : IsPath space) : space ≠ "" := by
  rintro rfl
  exact isPath "" List.mem_cons_self rfl

theorem foldCase_intercalate (parts : List String) :
    foldCase (".".intercalate parts) = ".".intercalate (parts.map foldCase) := by
  have dot : ".".toList.map Char.toLower = ".".toList := rfl
  rw [← String.toList_inj]
  simp only [foldCase, FoldedName.of, String.toList_map, String.toList_intercalate, Text.map_intercalate,
    dot, List.map_map, Function.comp_def]

theorem foldCase_eq_empty {text : String} : foldCase text = "" ↔ text = "" := by
  rw [← String.toList_eq_nil_iff, foldCase, FoldedName.of, String.toList_map, List.map_eq_nil_iff,
    String.toList_eq_nil_iff]

theorem namespaceParts_foldCase (space : String) :
    namespaceParts (foldCase space) = (namespaceParts space).map foldCase := by
  have dot : ((· == '.') ∘ Char.toLower) = (· == '.') := funext (beq_toLower '.' rfl)
  have pieces : Text.splitAt '.' (foldCase space) = (Text.splitAt '.' space).map foldCase := by
    rw [Text.splitAt, foldCase, FoldedName.of, String.toList_map, Text.splitChars_map, dot, Text.splitAt,
      List.map_map, List.map_map]
    exact List.map_congr_left fun piece _ => String.toList_inj.1 (by simp [foldCase, FoldedName.of])
  have filled : ((!·.isEmpty) ∘ foldCase) = (!String.isEmpty ·) := funext fun part => by
    rw [Bool.eq_iff_iff]
    simp [foldCase_eq_empty]
  rw [namespaceParts, pieces, List.filter_map, filled, namespaceParts]

theorem map_namespaceParts_congr {left right : String} (same : sameName left right) :
    (namespaceParts left).map FoldedName.of = (namespaceParts right).map FoldedName.of := by
  have parts (space : String) : (namespaceParts space).map FoldedName.of =
      (namespaceParts (foldCase space)).map FoldedName.mk := by
    rw [namespaceParts_foldCase, List.map_map]
    rfl
  rw [parts, parts, sameName_iff_foldCase.1 same]

theorem Namespace.foldCase_path {entry : Namespace} {space : String} (isPath : IsPath space)
    (isKey : entry.key = (namespaceParts space).map .of) : foldCase entry.path = foldCase space := by
  have parts : entry.parts.map foldCase = (namespaceParts space).map foldCase := by
    have texts := congrArg (List.map FoldedName.text) isKey
    rwa [Namespace.key, List.map_map, List.map_map] at texts
  rw [Namespace.path, foldCase_intercalate, parts, namespaceParts_eq isPath, ← foldCase_intercalate,
    Text.intercalate_splitAt]

namespace NamespaceTable

variable {table : NamespaceTable} {entry : Namespace} {key : List FoldedName} {name : FoldedName}

def Has (table : NamespaceTable) (key : List FoldedName) : Prop := ∃ entry ∈ table.entries, entry.key = key

/-- Whether the namespace with the parts of the key declares a type of the name. -/
def Declares (table : NamespaceTable) (key : List FoldedName) (name : FoldedName) : Prop :=
  ∃ entry ∈ table.entries, entry.key = key ∧ name ∈ entry.types

theorem mem_insert (listed : entry ∈ table.entries) (parts : List String) :
    entry ∈ (table.insert parts).entries := by
  suffices goes : ∀ around, entry ∈ (insert.go table around parts).entries from goes []
  induction parts generalizing table with
  | nil => exact fun _ => listed
  | cons part rest ih =>
    intro around
    rw [insert.go]
    split
    · exact ih listed _
    · exact ih (List.mem_append_left _ listed) _

theorem has_insert (root : table.Has []) (parts : List String) :
    (table.insert parts).Has (parts.map .of) := by
  suffices goes : ∀ around : List String, table.Has (around.map .of) →
      (insert.go table around parts).Has (around.map .of ++ parts.map .of) from goes [] root
  clear root
  induction parts generalizing table with
  | nil =>
    intro around here
    rw [List.map_nil, List.append_nil]
    exact here
  | cons part rest ih =>
    intro around _
    have whole {found : List String} (isFound : found.map FoldedName.of = around.map .of ++ [.of part]) :
        found.map FoldedName.of ++ rest.map .of = around.map .of ++ (part :: rest).map .of := by
      rw [isFound, List.append_assoc]
      rfl
    rw [insert.go]
    split
    · rename_i found isFound
      unfold get? at isFound
      have isKey := List.find?_some isFound
      rw [beq_iff_eq, List.map_append] at isKey
      have goes := ih found.parts ⟨found, List.mem_of_find?_eq_some isFound, rfl⟩
      rwa [whole isKey] at goes
    · have goes := @ih ⟨table.entries ++ [{ parts := around ++ [part] }]⟩ (around ++ [part])
        ⟨_, List.mem_append_right _ List.mem_cons_self, rfl⟩
      rwa [whole (by rw [List.map_append]; rfl)] at goes

/-- A namespace with a type that is noted, if it is the one that declares it. -/
def noting (key : List FoldedName) (name : FoldedName) (entry : Namespace) : Namespace :=
  if entry.key == key && !entry.types.contains name then { entry with types := entry.types ++ [name] }
  else entry

theorem entries_addType (table : NamespaceTable) (parts : List String) (name : String) :
    (table.addType parts name).entries =
      (table.insert parts).entries.map (noting (parts.map .of) (.of name)) := rfl

theorem key_noting (entry : Namespace) : (noting key name entry).key = entry.key := by
  unfold noting
  split <;> rfl

theorem subset_noting (entry : Namespace) : entry.types ⊆ (noting key name entry).types := by
  unfold noting
  split
  · exact List.subset_append_left _ _
  · exact List.Subset.refl _

theorem mem_noting (isKey : entry.key = key) : name ∈ (noting key name entry).types := by
  unfold noting
  split
  · exact List.mem_append_right _ List.mem_cons_self
  · rename_i known
    simpa [isKey] using known

theorem Declares.addType (declares : table.Declares key name) (parts : List String) (other : String) :
    (table.addType parts other).Declares key name := by
  obtain ⟨entry, listed, isKey, known⟩ := declares
  refine ⟨_, List.mem_map_of_mem (mem_insert listed parts), ?_, subset_noting _ known⟩
  exact (key_noting entry).trans isKey

theorem Has.addType (has : table.Has key) (parts : List String) (other : String) :
    (table.addType parts other).Has key := by
  obtain ⟨entry, listed, isKey⟩ := has
  exact ⟨_, List.mem_map_of_mem (mem_insert listed parts), (key_noting entry).trans isKey⟩

theorem declares_addType (root : table.Has []) (parts : List String) (name : String) :
    (table.addType parts name).Declares (parts.map .of) (.of name) := by
  obtain ⟨entry, listed, isKey⟩ := has_insert root parts
  exact ⟨_, List.mem_map_of_mem listed, (key_noting entry).trans isKey, mem_noting isKey⟩

def ofTypes (types : List ExternalType) : NamespaceTable :=
  types.foldl (fun table type => table.addType (namespaceParts type.space) type.name) {}

end NamespaceTable

namespace SymbolTable

variable {table table' : SymbolTable} {entry : Registration}

inductive Built : SymbolTable → Prop where
  | empty : Built .empty
  | register {table table' : SymbolTable} {entry : Registration} (built : Built table)
      (added : table.register entry = .ok table') : Built table'

theorem register_types (added : table.register entry = .ok table') :
    (∃ type, entry = .type type ∧ table.types[type.print]? = none ∧
      table'.types = table.types.insert type.print type ∧
      table'.namespaces = table.namespaces.addType (namespaceParts type.space) type.name) ∨
    table'.types = table.types ∧ table'.namespaces = table.namespaces := by
  cases entry with
  | type type =>
    left
    rw [register, addType] at added
    split at added
    · exact nomatch added
    · rename_i absent
      obtain rfl := Except.ok.inj added
      exact ⟨type, rfl, by simpa using absent, rfl, rfl⟩
  | member owner name kind result arity =>
    right
    rw [register, addMember] at added
    split at added
    · exact nomatch added
    · split at added
      · exact nomatch added
      · obtain rfl := Except.ok.inj added
        exact ⟨rfl, rfl⟩
  | defaultMember owner name =>
    right
    rw [register, nameDefaultMember] at added
    split at added
    · exact nomatch added
    · obtain rfl := Except.ok.inj added
      exact ⟨rfl, rfl⟩
  | constant owner name value =>
    right
    rw [register, addConstant] at added
    split at added
    · obtain rfl := Except.ok.inj added
      exact ⟨rfl, rfl⟩
    · split at added
      · exact nomatch added
      · obtain rfl := Except.ok.inj added
        exact ⟨rfl, rfl⟩
      · split at added
        · exact nomatch added
        · obtain rfl := Except.ok.inj added
          exact ⟨rfl, rfl⟩
        · obtain rfl := Except.ok.inj added
          exact ⟨rfl, rfl⟩
  | function owner name result arity =>
    right
    obtain rfl := Except.ok.inj added
    unfold addFunction
    split <;> exact ⟨rfl, rfl⟩
  | _ =>
    right
    obtain rfl := Except.ok.inj added
    exact ⟨rfl, rfl⟩

/-- Each type of the table is declared by its namespace. -/
structure Declaring (table : SymbolTable) : Prop where
  root : table.namespaces.Has []
  types : ∀ (print : Fingerprint) (type : ExternalType), table.types[print]? = some type →
    table.namespaces.Declares ((namespaceParts type.space).map .of) (.of type.name)

theorem Declaring.register (declaring : table.Declaring) (added : table.register entry = .ok table') :
    table'.Declaring := by
  rcases register_types added with ⟨type, -, -, types, namespaces⟩ | ⟨types, namespaces⟩
  · refine ⟨namespaces ▸ declaring.root.addType _ _, fun print found known => ?_⟩
    rw [types, Std.HashMap.getElem?_insert] at known
    rw [namespaces]
    split at known
    · obtain rfl := Option.some.inj known
      exact NamespaceTable.declares_addType declaring.root _ _
    · exact (declaring.types print found known).addType _ _
  · refine ⟨namespaces ▸ declaring.root, fun print found known => ?_⟩
    rw [namespaces]
    exact declaring.types print found (types ▸ known)

theorem Built.declaring (built : table.Built) : table.Declaring := by
  induction built with
  | empty =>
    refine ⟨⟨_, List.mem_cons_self, rfl⟩, fun print type known => ?_⟩
    simp [SymbolTable.empty] at known
  | register _ added ih => exact ih.register added

/-- Whether the table lists a type under the names of the given one, in a namespace without empty
parts. -/
structure Places (table : SymbolTable) (type : ExternalType) : Prop where
  isPath : IsPath type.space
  listed : ∃ found, table.type? type.print = some found ∧ sameName found.space type.space ∧
    sameName found.name type.name

theorem Built.declares (built : table.Built) {type : ExternalType} (places : table.Places type) :
    ∃ entry ∈ table.namespaces.entries, FoldedName.of type.name ∈ entry.types ∧
      sameName entry.path type.space := by
  obtain ⟨found, known, spaces, names⟩ := places.listed
  obtain ⟨entry, listed, isKey, declared⟩ := built.declaring.types _ found known
  rw [map_namespaceParts_congr spaces] at isKey
  rw [eq_of_beq names] at declared
  exact ⟨entry, listed, declared, sameName_iff_foldCase.2 (entry.foldCase_path places.isPath isKey)⟩

def next (table : SymbolTable) (entry : Registration) : SymbolTable :=
  (table.register entry).toOption.getD table

def after (entries : List Registration) : SymbolTable := entries.foldl next .empty

theorem after_concat (entries : List Registration) (entry : Registration) :
    after (entries ++ [entry]) = (after entries).next entry := by
  rw [after, List.foldl_append]
  rfl

theorem built_after (entries : List Registration) : (after entries).Built := by
  induction entries using List.reverseRecOn with
  | nil => exact .empty
  | append_singleton entries entry ih =>
    rw [after_concat, next]
    cases added : (after entries).register entry with
    | error fault => exact ih
    | ok table => exact ih.register added

def listing (types : List ExternalType) (constants : List SymbolConstant) : SymbolTable :=
  after (types.map .type ++ constants.map fun constant =>
    .constant constant.owner constant.name constant.value)

section Listing

variable {types : List ExternalType} {constants : List SymbolConstant}

theorem listing_types_concat (types : List ExternalType) (type : ExternalType) :
    listing (types ++ [type]) [] = (listing types []).next (.type type) := by
  simp [listing, after_concat]

theorem listing_concat (types : List ExternalType) (constants : List SymbolConstant)
    (constant : SymbolConstant) : listing types (constants ++ [constant]) = (listing types constants).next
      (.constant constant.owner constant.name constant.value) := by
  rw [listing, List.map_append, ← List.append_assoc, List.map_singleton, after_concat, ← listing]

theorem listing_types (apart : (types.map ExternalType.print).Nodup) :
    (∀ print, (listing types []).type? print = types.find? (·.print == print)) ∧
      (listing types []).namespaces = .ofTypes types ∧
      ∀ print : Fingerprint, (listing types []).constants[print]? = none := by
  induction types using List.reverseRecOn with
  | nil => exact ⟨fun _ => by simp [listing, after, SymbolTable.type?, SymbolTable.empty], rfl,
      fun _ => by simp [listing, after, SymbolTable.empty]⟩
  | append_singleton types type ih =>
    rw [List.map_append, List.map_singleton, List.nodup_append'] at apart
    obtain ⟨apart, -, new⟩ := apart
    obtain ⟨known, namespaces, constants⟩ := ih apart
    have missing : types.find? (·.print == type.print) = none :=
      List.find?_eq_none.2 fun other listed same =>
        new (List.mem_map.2 ⟨other, listed, beq_iff_eq.1 same⟩) List.mem_cons_self
    have absent : (listing types []).types.contains type.print = false := by
      rw [Std.HashMap.contains_eq_isSome_getElem?]
      exact congrArg Option.isSome ((known type.print).trans missing)
    have whole := listing_types_concat types type
    rw [next, register, addType, absent] at whole
    refine ⟨fun print => ?_, ?_, fun print => ?_⟩
    · have inserted : (listing (types ++ [type]) []).type? print =
          ((listing types []).types.insert type.print type)[print]? := by
        rw [whole]
        rfl
      rw [inserted, Std.HashMap.getElem?_insert, List.find?_append]
      by_cases same : type.print = print
      · subst same
        simp [missing]
      · simp [same, ← known print, SymbolTable.type?]
    · rw [whole, NamespaceTable.ofTypes, List.foldl_append, ← NamespaceTable.ofTypes, ← namespaces]
      rfl
    · rw [whole]
      exact constants print

theorem listing_eq (apart : (types.map ExternalType.print).Nodup)
    (names : (constants.map SymbolConstant.print).Nodup) :
    (∀ print : Fingerprint, (listing types constants).constants[print]? = constants.find? (·.print == print)) ∧
      (listing types constants).types = (listing types []).types ∧
      (listing types constants).namespaces = .ofTypes types := by
  induction constants using List.reverseRecOn with
  | nil => exact ⟨(listing_types apart).2.2, rfl, (listing_types apart).2.1⟩
  | append_singleton constants constant ih =>
    rw [List.map_append, List.map_singleton, List.nodup_append'] at names
    obtain ⟨names, -, new⟩ := names
    obtain ⟨known, same, namespaces⟩ := ih names
    have missing : constants.find? (·.print == constant.print) = none :=
      List.find?_eq_none.2 fun other listed same =>
        new (List.mem_map.2 ⟨other, listed, beq_iff_eq.1 same⟩) List.mem_cons_self
    have whole := listing_concat types constants constant
    rw [next, register, addConstant] at whole
    simp only [(known constant.print).trans missing] at whole
    rw [whole]
    refine ⟨fun print => ?_, same, namespaces⟩
    change ((listing types constants).constants.insert constant.print constant)[print]? = _
    rw [Std.HashMap.getElem?_insert, List.find?_append, known]
    by_cases same : constant.print = print
    · subst same
      simp [missing]
    · simp [same]

theorem places_listing (apart : (types.map ExternalType.print).Nodup)
    (names : (constants.map SymbolConstant.print).Nodup) {type : ExternalType} (listed : type ∈ types)
    (isPath : IsPath type.space) : (listing types constants).Places type where
  isPath := isPath
  listed := by
    refine ⟨type, ?_, beq_self_eq_true (FoldedName.of _), beq_self_eq_true (FoldedName.of _)⟩
    rw [SymbolTable.type?, (listing_eq apart names).2.1]
    exact ((listing_types apart).1 _).trans (find?_of_nodup_map _ apart listed)

theorem constant?_listing (apart : (types.map ExternalType.print).Nodup)
    (names : (constants.map SymbolConstant.print).Nodup) {constant : SymbolConstant}
    (listed : constant ∈ constants) : (listing types constants).constants[constant.print]? = some constant :=
  ((listing_eq apart names).1 _).trans (find?_of_nodup_map _ names listed)

end Listing

end SymbolTable

end ScriptMigration
