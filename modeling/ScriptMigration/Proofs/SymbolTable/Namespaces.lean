import Mathlib.Data.List.Infix
import ScriptMigration.Proofs.SymbolTable.Declared

/-! What a table of namespaces holds after types were noted in it. The table is a tree: a namespace that
is added is written as the one around it with a part of its own, and no two parts within one namespace
are the same name. So it holds the namespaces that were named and those around them, each once and as it
was first spelt, and each lists the types that were noted in it. -/
namespace ScriptMigration

structure IsPart (part : String) : Prop where
  filled : part ≠ ""
  plain : '.' ∉ part.toList

def namespaceKey (space : String) : List FoldedName := (namespaceParts space).map .of

section Parts

theorem not_cut_of_mem_splitChars {cut : Char → Bool} {text piece : List Char}
    (among : piece ∈ Text.splitChars cut text) : ∀ c ∈ piece, cut c = false := by
  induction text generalizing piece with
  | nil =>
    obtain rfl := List.mem_singleton.1 among
    exact List.forall_mem_nil _
  | cons c text ih =>
    rw [Text.splitChars] at among
    cases pieces : Text.splitChars cut text with
    | nil => exact absurd (Text.splitChars_eq_splitOnP cut text ▸ pieces) (List.splitOnP_ne_nil cut text)
    | cons first rest =>
      rw [pieces] at among ih
      dsimp only at among
      split at among
      · rcases List.mem_cons.1 among with rfl | later
        · exact List.forall_mem_nil _
        · exact ih later
      · rename_i kept
        rcases List.mem_cons.1 among with rfl | later
        · exact List.forall_mem_cons.2 ⟨Bool.eq_false_iff.2 kept, ih List.mem_cons_self⟩
        · exact ih (List.mem_cons_of_mem _ later)

theorem isPart_of_mem {space part : String} (listed : part ∈ namespaceParts space) : IsPart part := by
  obtain ⟨isPiece, filled⟩ := List.mem_filter.1 listed
  refine ⟨by simpa using filled, ?_⟩
  obtain ⟨piece, among, rfl⟩ := List.mem_map.1 isPiece
  rw [String.toList_ofList]
  exact fun dot => by simpa using not_cut_of_mem_splitChars among '.' dot

theorem namespaceParts_intercalate {parts : List String} (areParts : ∀ part ∈ parts, IsPart part) :
    namespaceParts (".".intercalate parts) = parts := by
  by_cases filled : parts = []
  · subst filled
    rfl
  have pieces : Text.splitAt '.' (".".intercalate parts) = parts := by
    have plain : ∀ piece ∈ parts.map String.toList, '.' ∉ piece :=
      List.forall_mem_map.2 fun part listed => (areParts part listed).plain
    have split := List.splitOn_intercalate '.' plain (by simpa using filled)
    rw [Text.splitAt, Text.splitChars_eq_splitOnP, String.toList_intercalate]
    have texts := congrArg (List.map String.ofList) split
    simpa [List.splitOn, Function.comp_def] using texts
  rw [namespaceParts, pieces, List.filter_eq_self]
  exact fun part listed => by simpa using (areParts part listed).filled

end Parts

def Namespace.within (space : Namespace) (more : List String) : Namespace := { parts := space.parts ++ more }

theorem Namespace.key_within (space : Namespace) (more : List String) :
    (space.within more).key = space.key ++ more.map .of := List.map_append

namespace NamespaceTable

variable {table : NamespaceTable} {base : Namespace} {key : List FoldedName} {parts : List String}

theorem get?_isSome_iff : (table.get? parts).isSome ↔ table.Has (parts.map .of) := by
  simp [get?, Has]

theorem get?_eq_none_iff : table.get? parts = none ↔ ¬ table.Has (parts.map .of) := by
  rw [← get?_isSome_iff, Option.not_isSome_iff_eq_none]

theorem get?_eq_some {found : Namespace} (isFound : table.get? parts = some found) :
    found ∈ table.entries ∧ found.key = parts.map .of :=
  ⟨List.mem_of_find?_eq_some isFound, by simpa using List.find?_some isFound⟩

theorem get?_congr {left right : List String} (same : left.map FoldedName.of = right.map .of) :
    table.get? left = table.get? right := by
  rw [get?, get?, same]

def Closed (table : NamespaceTable) : Prop := ∀ key more, table.Has (key ++ more) → table.Has key

theorem mem_tail_inits {α : Type} {items more : List α} :
    more ∈ items.inits.tail ↔ more ≠ [] ∧ more <+: items := by
  cases items with
  | nil => simp
  | cons item items =>
    rw [List.inits_cons, List.tail_cons]
    cases more <;> simp [List.cons_prefix_cons, eq_comm, and_comm]

theorem parts_noting {name : FoldedName} (entry : Namespace) : (noting key name entry).parts = entry.parts := by
  unfold noting
  split <;> rfl

theorem mem_types_noting {name other : FoldedName} {entry : Namespace} :
    other ∈ (noting key name entry).types ↔ other ∈ entry.types ∨ entry.key = key ∧ name = other := by
  unfold noting
  split <;> simp_all <;> grind

theorem keys_addType (table : NamespaceTable) (parts : List String) (name : String) :
    (table.addType parts name).entries.map Namespace.key =
      (table.insert parts).entries.map Namespace.key := by
  rw [entries_addType, List.map_map]
  exact List.map_congr_left fun entry _ => key_noting entry

section Insert

theorem go_of_missing (around rest : List String)
    (missing : ∀ more, more ≠ [] → more <+: rest → ¬ table.Has ((around ++ more).map .of)) :
    (insert.go table around rest).entries =
      table.entries ++ rest.inits.tail.map fun more => { parts := around ++ more } := by
  induction rest generalizing table around with
  | nil => simp [insert.go]
  | cons part rest ih =>
    have absent : table.get? (around ++ [part]) = none :=
      get?_eq_none_iff.2 (missing [part] (List.cons_ne_nil _ _) ⟨rest, rfl⟩)
    rw [insert.go, absent]
    dsimp only
    rw [ih]
    · cases rest <;> simp [Function.comp_def]
    · rintro more filled ⟨after, rfl⟩ ⟨entry, listed, isKey⟩
      rcases List.mem_append.1 listed with old | new
      · refine missing (part :: more) (List.cons_ne_nil _ _) ⟨after, rfl⟩ ⟨entry, old, ?_⟩
        simpa using isKey
      · rw [List.mem_singleton.1 new] at isKey
        have lengths := congrArg List.length isKey
        simp [Namespace.key] at lengths
        exact filled lengths

theorem go_adds (closed : table.Closed) (here : base ∈ table.entries) (parts : List String) :
    ∃ found missing inner, parts = found ++ missing ∧ inner ∈ table.entries ∧
      inner.key = base.key ++ found.map .of ∧
      (∀ more, more ≠ [] → more <+: missing → ¬ table.Has (inner.key ++ more.map .of)) ∧
      (insert.go table base.parts parts).entries =
        table.entries ++ missing.inits.tail.map inner.within := by
  induction parts generalizing base with
  | nil =>
    refine ⟨[], [], base, rfl, here, by simp, fun more filled within => ?_, by simp [insert.go]⟩
    exact absurd (List.prefix_nil.1 within) filled
  | cons part rest ih =>
    cases isNext : table.get? (base.parts ++ [part]) with
    | some next =>
      obtain ⟨listed, isKey⟩ := get?_eq_some isNext
      obtain ⟨found, missing, inner, rfl, among, innerKey, absent, adds⟩ := ih listed
      refine ⟨part :: found, missing, inner, rfl, among, ?_, absent, ?_⟩
      · rw [innerKey, isKey]
        simp [Namespace.key]
      · rw [insert.go, isNext]
        exact adds
    | none =>
      have absent : ∀ more, more ≠ [] → more <+: part :: rest → ¬ table.Has (base.key ++ more.map .of) := by
        rintro more filled ⟨after, whole⟩ has
        obtain ⟨first, others, rfl⟩ := List.exists_cons_of_ne_nil filled
        obtain rfl := (List.cons.inj whole).1
        refine get?_eq_none_iff.1 isNext (closed _ (others.map .of) ?_)
        simpa [Namespace.key] using has
      refine ⟨[], part :: rest, base, rfl, here, by simp, absent, go_of_missing _ _ ?_⟩
      intro more filled within
      rw [List.map_append]
      exact absent more filled within

theorem exists_keys_go (around rest : List String) : ∃ more,
    (insert.go table around rest).entries.map Namespace.key = table.entries.map Namespace.key ++ more := by
  induction rest generalizing table around with
  | nil => exact ⟨[], by simp [insert.go]⟩
  | cons part rest ih =>
    rw [insert.go]
    split
    · exact ih _
    · obtain ⟨more, keys⟩ := @ih ⟨table.entries ++ [{ parts := around ++ [part] }]⟩ (around ++ [part])
      exact ⟨_, by rw [keys, List.map_append, List.append_assoc]⟩

theorem nodup_go (around rest : List String) (apart : (table.entries.map Namespace.key).Nodup) :
    ((insert.go table around rest).entries.map Namespace.key).Nodup := by
  induction rest generalizing table around with
  | nil => exact apart
  | cons part rest ih =>
    rw [insert.go]
    split
    · exact ih _ apart
    · rename_i absent
      refine ih _ ?_
      rw [List.map_append, List.nodup_append']
      refine ⟨apart, List.nodup_singleton _, fun key old new => get?_eq_none_iff.1 absent ?_⟩
      obtain ⟨entry, listed, isKey⟩ := List.mem_map.1 old
      rw [List.map_singleton, List.mem_singleton] at new
      exact ⟨entry, listed, isKey.trans new⟩

end Insert

section Numbers

variable {number : Nat}

theorem exists_of_number? (isNumber : table.number? parts = some number) :
    ∃ space, table.entries[number]? = some space ∧ table.get? parts = some space := by
  obtain ⟨within, isKey, first⟩ := List.findIdx?_eq_some_iff_getElem.1 isNumber
  refine ⟨table.entries[number], List.getElem?_eq_getElem within, ?_⟩
  exact List.find?_eq_some_iff_getElem.2
    ⟨isKey, number, within, rfl, fun earlier less => by simpa using first earlier less⟩

theorem number?_eq (table : NamespaceTable) (parts : List String) : table.number? parts =
    (table.entries.map Namespace.key).findIdx? (· == parts.map .of) := by
  rw [number?, List.findIdx?_map]
  rfl

theorem number?_addType (isNumber : table.number? parts = some number) (space : List String)
    (name : String) : (table.addType space name).number? parts = some number := by
  obtain ⟨more, keys⟩ : ∃ more, (table.insert space).entries.map Namespace.key =
      table.entries.map Namespace.key ++ more := exists_keys_go [] space
  rw [number?_eq] at isNumber ⊢
  rw [keys_addType, keys, List.findIdx?_append, isNumber]
  rfl

end Numbers

def ofNotes (notes : List (String × String)) : NamespaceTable :=
  notes.foldl (fun table (space, name) => table.addType (namespaceParts space) name) {}

def child? (table : NamespaceTable) (space : Namespace) (part : String) : Option Namespace :=
  table.entries.find? fun inner =>
    inner.parts.dropLast == space.parts && inner.parts.getLast?.any (sameName part)

section Spelling

variable {notes : List (String × String)} {note : String × String}

def Named (notes : List (String × String)) (key : List FoldedName) : Prop :=
  ∃ note ∈ notes, key <+: namespaceKey note.1

/-- How the first note that names a namespace, or one within it, spells its last part. -/
def label (notes : List (String × String)) (key : List FoldedName) : String :=
  ((notes.find? fun note => key.isPrefixOf (namespaceKey note.1)).bind fun note =>
    (namespaceParts note.1)[key.length - 1]?).getD ""

def spelling (notes : List (String × String)) (key : List FoldedName) : List String :=
  key.inits.tail.map (label notes)

def spelled (notes : List (String × String)) (key : List FoldedName) : String :=
  ".".intercalate (spelling notes key)

theorem spelling_concat (notes : List (String × String)) (key : List FoldedName) (part : FoldedName) :
    spelling notes (key ++ [part]) = spelling notes key ++ [label notes (key ++ [part])] := by
  have filled : key.inits ≠ [] := by cases key <;> simp
  simp [spelling, List.inits_append, List.tail_append_of_ne_nil filled]

theorem Named.of_append {more : List FoldedName} (named : Named notes (key ++ more)) : Named notes key := by
  obtain ⟨note, listed, within⟩ := named
  exact ⟨note, listed, (List.prefix_append _ _).trans within⟩

theorem label_of_named (named : Named notes key) : label (notes ++ [note]) key = label notes key := by
  obtain ⟨other, listed, within⟩ := named
  have isFound : (notes.find? fun note => key.isPrefixOf (namespaceKey note.1)).isSome :=
    List.find?_isSome.2 ⟨other, listed, List.isPrefixOf_iff_prefix.2 within⟩
  obtain ⟨first, isFirst⟩ := Option.isSome_iff_exists.1 isFound
  simp [label, List.find?_append, isFirst]

theorem label_of_new (unnamed : ¬ Named notes key) {before after : List String} {part : String}
    (isKey : key = (before ++ [part]).map .of) (whole : namespaceParts note.1 = before ++ part :: after) :
    label (notes ++ [note]) key = part := by
  have none : notes.find? (fun note => key.isPrefixOf (namespaceKey note.1)) = none :=
    List.find?_eq_none.2 fun other listed within =>
      unnamed ⟨other, listed, List.isPrefixOf_iff_prefix.1 within⟩
  have within : key.isPrefixOf (namespaceKey note.1) := by
    rw [List.isPrefixOf_iff_prefix, namespaceKey, whole, isKey]
    exact ⟨after.map .of, by simp⟩
  rw [label, List.find?_append, none, Option.none_or, List.find?_singleton, if_pos within, isKey]
  simp [whole]

theorem spelling_of_named (named : Named notes key) :
    spelling (notes ++ [note]) key = spelling notes key := by
  induction key using List.reverseRecOn with
  | nil => rfl
  | append_singleton key part ih =>
    rw [spelling_concat, spelling_concat, ih named.of_append, label_of_named named]

theorem spelling_of_new {before missing more : List String}
    (whole : namespaceParts note.1 = before ++ missing) (within : more <+: missing)
    (new : ∀ more, more ≠ [] → more <+: missing → ¬ Named notes ((before ++ more).map .of)) :
    spelling (notes ++ [note]) ((before ++ more).map .of) =
      spelling (notes ++ [note]) (before.map .of) ++ more := by
  induction more using List.reverseRecOn with
  | nil => simp
  | append_singleton more part ih =>
    obtain ⟨after, rfl⟩ := within
    have unnamed := new (more ++ [part]) (by simp) (List.prefix_append _ _)
    have split : namespaceParts note.1 = (before ++ more) ++ part :: after := by
      rw [whole]
      simp
    have isLabel : label (notes ++ [note]) ((before ++ (more ++ [part])).map .of) = part :=
      label_of_new unnamed (by rw [List.append_assoc]) split
    rw [← List.append_assoc, List.map_append, List.map_singleton, spelling_concat,
      ih (by simp), ← List.append_assoc]
    rw [← List.append_assoc, List.map_append, List.map_singleton] at isLabel
    rw [isLabel]

end Spelling

/-- What a table holds after the notes. -/
structure Holds (table : NamespaceTable) (notes : List (String × String)) : Prop where
  apart : (table.entries.map Namespace.key).Nodup
  has_iff : ∀ key, table.Has key ↔ key = [] ∨ Named notes key
  spelt : ∀ entry ∈ table.entries, entry.parts = spelling notes entry.key
  areParts : ∀ entry ∈ table.entries, ∀ part ∈ entry.parts, IsPart part
  types : ∀ entry ∈ table.entries, ∀ name, name ∈ entry.types ↔
    ∃ note ∈ notes, namespaceKey note.1 = entry.key ∧ FoldedName.of note.2 = name

namespace Holds

variable {notes : List (String × String)}

theorem nil : Holds {} [] where
  apart := List.nodup_singleton _
  has_iff key := by simp [Has, Named, Namespace.key, eq_comm]
  spelt entry listed := by simp_all [Namespace.key, spelling]
  areParts entry listed := by simp_all
  types entry listed name := by simp_all

theorem closed (holds : table.Holds notes) : table.Closed := by
  intro key more has
  rcases (holds.has_iff _).1 has with none | named
  · exact (holds.has_iff _).2 (.inl (List.append_eq_nil_iff.1 none).1)
  · exact (holds.has_iff _).2 (.inr named.of_append)

theorem root (holds : table.Holds notes) : ∃ root ∈ table.entries, root.parts = [] ∧ root.key = [] := by
  obtain ⟨root, listed, isKey⟩ := (holds.has_iff []).2 (.inl rfl)
  exact ⟨root, listed, List.map_eq_nil_iff.1 isKey, isKey⟩

theorem insert_cases (holds : table.Holds notes) (space : String) : ∃ found missing, ∃ inner ∈ table.entries,
    namespaceParts space = found ++ missing ∧ inner.key = found.map .of ∧
      (∀ more, more ≠ [] → more <+: missing → ¬ Named notes ((found ++ more).map .of)) ∧
      ∀ entry, entry ∈ (table.insert (namespaceParts space)).entries ↔ entry ∈ table.entries ∨
        ∃ more, more ≠ [] ∧ more <+: missing ∧ entry = inner.within more := by
  obtain ⟨root, isRoot, bare, rootKey⟩ := holds.root
  obtain ⟨found, missing, inner, whole, among, innerKey, absent, adds⟩ :=
    go_adds holds.closed isRoot (namespaceParts space)
  rw [rootKey, List.nil_append] at innerKey
  refine ⟨found, missing, inner, among, whole, innerKey, fun more filled within named => ?_, fun entry => ?_⟩
  · refine absent more filled within ?_
    rw [innerKey, ← List.map_append]
    exact (holds.has_iff _).2 (.inr named)
  · rw [bare] at adds
    rw [insert, adds, List.mem_append, List.mem_map]
    simp only [mem_tail_inits, and_assoc, eq_comm]

theorem has_insert_iff (holds : table.Holds notes) (space name : String) (key : List FoldedName) :
    (table.insert (namespaceParts space)).Has key ↔ key = [] ∨ Named (notes ++ [(space, name)]) key := by
  obtain ⟨found, missing, inner, among, whole, innerKey, -, adds⟩ := holds.insert_cases space
  have isKey : namespaceKey space = (found ++ missing).map .of := by rw [namespaceKey, whole]
  constructor
  · rintro ⟨entry, listed, rfl⟩
    rcases (adds entry).1 listed with old | ⟨more, -, ⟨after, rfl⟩, rfl⟩
    · refine ((holds.has_iff _).1 ⟨entry, old, rfl⟩).imp_right fun ⟨note, earlier, within⟩ => ?_
      exact ⟨note, List.mem_append_left _ earlier, within⟩
    · refine .inr ⟨_, List.mem_append_right _ List.mem_cons_self, after.map .of, ?_⟩
      rw [isKey, Namespace.key_within, innerKey]
      simp
  · have old {key : List FoldedName} (has : table.Has key) :
        (table.insert (namespaceParts space)).Has key := by
      obtain ⟨entry, listed, isKey⟩ := has
      exact ⟨entry, mem_insert listed _, isKey⟩
    rintro (rfl | ⟨note, listed, within⟩)
    · exact old ((holds.has_iff []).2 (.inl rfl))
    rcases List.mem_append.1 listed with earlier | last
    · exact old ((holds.has_iff key).2 (.inr ⟨note, earlier, within⟩))
    · obtain rfl := List.mem_singleton.1 last
      rw [isKey, List.prefix_iff_eq_take, ← List.map_take, List.take_append] at within
      rw [within]
      by_cases short : missing.take (key.length - found.length) = []
      · refine old (holds.closed _ ((found.drop key.length).map .of) ⟨inner, among, ?_⟩)
        rw [short, List.append_nil, ← List.map_append, List.take_append_drop, innerKey]
      · have long : found.length ≤ key.length := by
          by_contra less
          exact short (by rw [Nat.sub_eq_zero_of_le (by omega), List.take_zero])
        refine ⟨_, (adds _).2 (.inr ⟨_, short, List.take_prefix _ _, rfl⟩), ?_⟩
        rw [List.take_of_length_le long, Namespace.key_within, innerKey, List.map_append]

theorem spelt_insert (holds : table.Holds notes) (space name : String) :
    ∀ entry ∈ (table.insert (namespaceParts space)).entries,
      entry.parts = spelling (notes ++ [(space, name)]) entry.key := by
  obtain ⟨found, missing, inner, among, whole, innerKey, new, adds⟩ := holds.insert_cases space
  have old : ∀ entry ∈ table.entries, entry.parts = spelling (notes ++ [(space, name)]) entry.key := by
    intro entry listed
    rcases (holds.has_iff entry.key).1 ⟨entry, listed, rfl⟩ with isRoot | named
    · rw [isRoot]
      exact List.map_eq_nil_iff.1 isRoot
    · rw [spelling_of_named named]
      exact holds.spelt entry listed
  intro entry listed
  rcases (adds entry).1 listed with earlier | ⟨more, -, within, rfl⟩
  · exact old entry earlier
  · have isNew : spelling (notes ++ [(space, name)]) ((found ++ more).map .of) =
        spelling (notes ++ [(space, name)]) (found.map .of) ++ more := spelling_of_new whole within new
    rw [Namespace.key_within, innerKey, ← List.map_append, isNew, ← innerKey, ← old inner among]
    rfl

theorem types_insert (holds : table.Holds notes) (space : String) :
    ∀ entry ∈ (table.insert (namespaceParts space)).entries, ∀ name, name ∈ entry.types ↔
      ∃ note ∈ notes, namespaceKey note.1 = entry.key ∧ FoldedName.of note.2 = name := by
  obtain ⟨found, missing, inner, among, whole, innerKey, new, adds⟩ := holds.insert_cases space
  intro entry listed name
  rcases (adds entry).1 listed with old | ⟨more, filled, within, rfl⟩
  · exact holds.types entry old name
  · refine iff_of_false List.not_mem_nil ?_
    rintro ⟨note, earlier, isKey, -⟩
    refine new more filled within ⟨note, earlier, ?_⟩
    rw [isKey, Namespace.key_within, innerKey, List.map_append]

/-- A note adds the namespaces that are missing around the type, and the type to its own. -/
theorem addType (holds : table.Holds notes) (space name : String) :
    (table.addType (namespaceParts space) name).Holds (notes ++ [(space, name)]) := by
  obtain ⟨found, missing, inner, among, whole, innerKey, new, adds⟩ := holds.insert_cases space
  have keys := table.keys_addType (namespaceParts space) name
  refine ⟨keys ▸ nodup_go [] _ holds.apart, fun key => ?_, ?_, ?_, ?_⟩
  · rw [← holds.has_insert_iff space name key]
    simp only [Has, ← List.mem_map, keys]
  all_goals
    rw [entries_addType, List.forall_mem_map]
    intro entry listed
  · rw [parts_noting, key_noting]
    exact holds.spelt_insert space name entry listed
  · rw [parts_noting]
    rcases (adds entry).1 listed with old | ⟨more, -, within, rfl⟩
    · exact holds.areParts entry old
    · refine List.forall_mem_append.2 ⟨holds.areParts inner among, fun part isMore => ?_⟩
      have listed : part ∈ namespaceParts space := by
        rw [whole]
        exact List.mem_append_right _ (within.subset isMore)
      exact isPart_of_mem listed
  · intro other
    rw [mem_types_noting, key_noting, holds.types_insert space entry listed]
    simp only [List.mem_append, List.mem_singleton, or_and_right, exists_or, exists_eq_left]
    exact or_congr_right (and_congr_left' eq_comm)

theorem ofNotes (notes : List (String × String)) : (ofNotes notes).Holds notes := by
  induction notes using List.reverseRecOn with
  | nil => exact .nil
  | append_singleton notes note ih =>
    rw [NamespaceTable.ofNotes, List.foldl_append]
    exact ih.addType note.1 note.2

theorem namespaceKey_path (holds : table.Holds notes) {entry : Namespace} (listed : entry ∈ table.entries) :
    namespaceKey entry.path = entry.key := by
  rw [namespaceKey, Namespace.path, namespaceParts_intercalate (holds.areParts entry listed), Namespace.key]

theorem nodup_paths (holds : table.Holds notes) :
    (table.entries.map fun entry => foldCase entry.path).Nodup := by
  refine List.Nodup.map_on (fun left isLeft right isRight same => ?_) (List.Nodup.of_map _ holds.apart)
  refine List.inj_on_of_nodup_map holds.apart isLeft isRight ?_
  rw [← holds.namespaceKey_path isLeft, ← holds.namespaceKey_path isRight]
  exact map_namespaceParts_congr (sameName_iff_foldCase.2 same)

theorem get?_isSome_iff (holds : table.Holds notes) (space : String) :
    (table.get? (namespaceParts space)).isSome ↔
      namespaceParts space = [] ∨ Named notes (namespaceKey space) := by
  rw [NamespaceTable.get?_isSome_iff, ← namespaceKey, holds.has_iff, namespaceKey, List.map_eq_nil_iff]

theorem declares_iff (holds : table.Holds notes) (space name : String) :
    table.declares (namespaceParts space) name ↔
      ∃ note ∈ notes, namespaceKey note.1 = namespaceKey space ∧ sameName note.2 name := by
  rw [declares, Option.any_eq_true]
  constructor
  · rintro ⟨entry, isEntry, declared⟩
    obtain ⟨listed, isKey⟩ := get?_eq_some isEntry
    obtain ⟨note, noted, same, isName⟩ := (holds.types entry listed _).1 (List.contains_iff_mem.1 declared)
    exact ⟨note, noted, same.trans isKey, beq_iff_eq.2 isName⟩
  · rintro ⟨note, noted, same, isName⟩
    have found := (holds.get?_isSome_iff space).2 (.inr ⟨note, noted, same ▸ List.prefix_refl _⟩)
    obtain ⟨entry, isEntry⟩ := Option.isSome_iff_exists.1 found
    obtain ⟨listed, isKey⟩ := get?_eq_some isEntry
    refine ⟨entry, isEntry, List.contains_iff_mem.2 ?_⟩
    exact (holds.types entry listed _).2 ⟨note, noted, same.trans isKey.symm, eq_of_beq isName⟩

theorem mem_declaring_iff (holds : table.Holds notes) (name path : String) : path ∈ table.declaring name ↔
    ∃ note ∈ notes, sameName note.2 name ∧ path = spelled notes (namespaceKey note.1) := by
  have spelt {entry : Namespace} (listed : entry ∈ table.entries) : entry.path = spelled notes entry.key := by
    rw [Namespace.path, holds.spelt entry listed, spelled]
  rw [declaring, List.mem_map]
  constructor
  · rintro ⟨entry, among, rfl⟩
    obtain ⟨listed, declared⟩ := List.mem_filter.1 among
    obtain ⟨note, noted, same, isName⟩ := (holds.types entry listed _).1 (List.contains_iff_mem.1 declared)
    exact ⟨note, noted, beq_iff_eq.2 isName, by rw [same, spelt listed]⟩
  · rintro ⟨note, noted, isName, rfl⟩
    obtain ⟨entry, listed, isKey⟩ := (holds.has_iff (namespaceKey note.1)).2
      (.inr ⟨note, noted, List.prefix_refl _⟩)
    refine ⟨entry, List.mem_filter.2 ⟨listed, List.contains_iff_mem.2 ?_⟩, by rw [spelt listed, isKey]⟩
    exact (holds.types entry listed _).2 ⟨note, noted, isKey.symm, eq_of_beq isName⟩

theorem namespaceKey_spelled (holds : table.Holds notes) (note : String × String) (noted : note ∈ notes) :
    namespaceKey (spelled notes (namespaceKey note.1)) = namespaceKey note.1 := by
  obtain ⟨entry, listed, isKey⟩ := (holds.has_iff (namespaceKey note.1)).2
    (.inr ⟨note, noted, List.prefix_refl _⟩)
  have read := holds.namespaceKey_path listed
  rwa [Namespace.path, holds.spelt entry listed, isKey] at read

theorem nodup_declaring (holds : table.Holds notes) (name : String) :
    ((table.declaring name).map foldCase).Nodup := by
  rw [declaring, List.map_map]
  exact holds.nodup_paths.sublist (List.filter_sublist.map _)

theorem child?_eq (holds : table.Holds notes) {space : Namespace} (listed : space ∈ table.entries)
    (part : String) : table.child? space part = table.get? (space.parts ++ [part]) := by
  rw [child?, get?, ← List.head?_filter, ← List.head?_filter]
  refine congrArg List.head? (List.filter_congr fun inner among => ?_)
  rw [Bool.eq_iff_iff]
  rcases List.eq_nil_or_concat inner.parts with none | ⟨around, own, isParts⟩
  · simp [Namespace.key, none]
  · have spelt := holds.spelt inner among
    rw [Namespace.key, isParts] at spelt
    simp only [List.concat_eq_append, List.map_append, List.map_singleton, spelling_concat] at spelt
    have aroundSpelt := (List.append_inj' spelt rfl).1
    have same : around = space.parts ↔ around.map FoldedName.of = space.parts.map .of := by
      refine ⟨congrArg _, fun same => ?_⟩
      calc around = spelling notes (around.map .of) := aroundSpelt
        _ = spelling notes space.key := congrArg _ same
        _ = space.parts := (holds.spelt space listed).symm
    simp only [Namespace.key, isParts, List.concat_eq_append, List.dropLast_concat, List.getLast?_concat,
      Option.any_some, sameName, Bool.and_eq_true, beq_iff_eq, List.map_append, List.map_singleton,
      same]
    rw [← List.concat_eq_append, ← List.concat_eq_append, List.concat_inj]
    exact and_congr_right' eq_comm

theorem get?_eq_foldlM (holds : table.Holds notes) (parts : List String) :
    table.get? parts = (table.get? []).bind fun root => parts.foldlM table.child? root := by
  induction parts using List.reverseRecOn with
  | nil => simp
  | append_singleton parts part ih =>
    have steps : (table.get? []).bind (fun root => (parts ++ [part]).foldlM table.child? root) =
        (table.get? parts).bind (table.child? · part) := by
      simp only [ih, List.foldlM_append, List.foldlM_cons, List.foldlM_nil, Option.bind_assoc]
      simp [bind, pure]
    rw [steps]
    cases found : table.get? parts with
    | none =>
      rw [Option.bind_none, get?_eq_none_iff]
      exact fun has => get?_eq_none_iff.1 found (holds.closed _ [.of part] (by simpa using has))
    | some space =>
      obtain ⟨listed, isKey⟩ := get?_eq_some found
      rw [Option.bind_some, holds.child?_eq listed]
      exact get?_congr (by rw [List.map_append, List.map_append, ← isKey, Namespace.key])

end Holds

/-- A table of namespaces is the tree of the namespaces that were named. A namespace is declared to have
the types that were noted in it and no others; those that have a type are listed once, each part spelt as
where it was first named, so that their paths are read as what they are. No two paths are the same, and
there are the global namespace, those that were named and those around them, which are found part by part
from the global one on. -/
theorem ofNotes_lists (notes : List (String × String)) :
    (∀ space name, (ofNotes notes).declares (namespaceParts space) name ↔
      ∃ note ∈ notes, namespaceKey note.1 = namespaceKey space ∧ sameName note.2 name) ∧
    (∀ name, (((ofNotes notes).declaring name).map foldCase).Nodup ∧
      ∀ path, path ∈ (ofNotes notes).declaring name ↔
        ∃ note ∈ notes, sameName note.2 name ∧ path = spelled notes (namespaceKey note.1)) ∧
    (∀ note ∈ notes, namespaceKey (spelled notes (namespaceKey note.1)) = namespaceKey note.1) ∧
    ((ofNotes notes).entries.map fun entry => foldCase entry.path).Nodup ∧
    (∀ space, ((ofNotes notes).get? (namespaceParts space)).isSome ↔
      namespaceParts space = [] ∨ Named notes (namespaceKey space)) ∧
    ∀ parts, (ofNotes notes).get? parts =
      ((ofNotes notes).get? []).bind fun root => parts.foldlM (ofNotes notes).child? root := by
  have holds := Holds.ofNotes notes
  exact ⟨holds.declares_iff, fun name => ⟨holds.nodup_declaring name, holds.mem_declaring_iff name⟩,
    holds.namespaceKey_spelled, holds.nodup_paths, holds.get?_isSome_iff, holds.get?_eq_foldlM⟩

structure Nests (table : NamespaceTable) : Prop where
  apart : (table.entries.map Namespace.key).Nodup
  areParts : ∀ entry ∈ table.entries, ∀ part ∈ entry.parts, IsPart part
  around : ∀ entry ∈ table.entries, ∀ parts own, entry.parts = parts ++ [own] →
    ∃ space ∈ table.entries, space.parts = parts
  root : ∃ space, table.entries[0]? = some space ∧ space.parts = []

namespace Nests

variable {space inner : Namespace} {number : Nat} {part : String}

theorem number?_eq_some_iff (nests : table.Nests) {parts : List String} :
    table.number? parts = some number ↔
      ∃ entry, table.entries[number]? = some entry ∧ entry.key = parts.map .of := by
  constructor
  · intro isNumber
    obtain ⟨entry, listed, isEntry⟩ := exists_of_number? isNumber
    exact ⟨entry, listed, (get?_eq_some isEntry).2⟩
  · rintro ⟨entry, listed, isKey⟩
    obtain ⟨within, rfl⟩ := List.getElem?_eq_some_iff.1 listed
    rw [number?, List.findIdx?_eq_some_iff_getElem]
    refine ⟨within, beq_iff_eq.2 isKey, fun earlier less => ?_⟩
    simp only [beq_iff_eq]
    intro same
    have keys := (List.nodup_iff_getElem?_ne_getElem?.1 nests.apart) earlier number less
      (by rwa [List.length_map])
    simp [List.getElem?_map, List.getElem?_eq_getElem within,
      List.getElem?_eq_getElem (less.trans within), same, isKey] at keys

theorem parts_eq (nests : table.Nests) (listed : space ∈ table.entries) (among : inner ∈ table.entries)
    (isKey : inner.key = space.key ++ [.of part]) :
    ∃ own, inner.parts = space.parts ++ [own] ∧ sameName own part := by
  rcases List.eq_nil_or_concat inner.parts with none | ⟨outer, own, isParts⟩
  · rw [Namespace.key, none] at isKey
    exact absurd isKey.symm (List.append_ne_nil_of_right_ne_nil _ (List.cons_ne_nil _ _))
  · rw [List.concat_eq_append] at isParts
    rw [Namespace.key, isParts, List.map_append] at isKey
    obtain ⟨isOuter, isOwn⟩ := List.append_inj' isKey rfl
    obtain ⟨found, isFound, rfl⟩ := nests.around inner among outer own isParts
    obtain rfl := List.inj_on_of_nodup_map nests.apart isFound listed isOuter
    exact ⟨own, isParts, beq_iff_eq.2 (List.cons.inj isOwn).1⟩

theorem closed (nests : table.Nests) : table.Closed := by
  intro key more has
  induction more using List.reverseRecOn with
  | nil => rwa [List.append_nil] at has
  | append_singleton more part ih =>
    obtain ⟨entry, listed, isKey⟩ := has
    rw [← List.append_assoc] at isKey
    obtain ⟨outer, last, parts, isOuter, isLast⟩ := List.map_eq_append_iff.1 isKey
    obtain ⟨own, rfl, -⟩ := List.map_eq_singleton_iff.1 isLast
    obtain ⟨space, among, same⟩ := nests.around entry listed outer own parts
    exact ih ⟨space, among, by rw [Namespace.key, same, isOuter]⟩

theorem concat (nests : table.Nests) (listed : space ∈ table.entries) (isPart : IsPart part)
    (absent : table.get? (space.parts ++ [part]) = none) :
    (NamespaceTable.mk (table.entries ++ [space.within [part]])).Nests := by
  refine ⟨?_, List.forall_mem_append.2 ⟨nests.areParts, List.forall_mem_singleton.2 ?_⟩, ?_, ?_⟩
  · rw [List.map_append, List.nodup_append']
    refine ⟨nests.apart, List.nodup_singleton _, fun key old new => get?_eq_none_iff.1 absent ?_⟩
    obtain ⟨entry, among, isKey⟩ := List.mem_map.1 old
    rw [List.map_singleton, List.mem_singleton] at new
    exact ⟨entry, among, isKey.trans new⟩
  · exact List.forall_mem_append.2 ⟨nests.areParts space listed, List.forall_mem_singleton.2 isPart⟩
  · intro entry among parts own isParts
    rcases List.mem_append.1 among with old | new
    · obtain ⟨outer, isOuter, same⟩ := nests.around entry old parts own isParts
      exact ⟨outer, List.mem_append_left _ isOuter, same⟩
    · rw [List.mem_singleton.1 new] at isParts
      exact ⟨space, List.mem_append_left _ listed, (List.append_inj' isParts rfl).1⟩
  · obtain ⟨root, isRoot, bare⟩ := nests.root
    have within := (List.getElem?_eq_some_iff.1 isRoot).1
    exact ⟨root, (List.getElem?_append_left within).trans isRoot, bare⟩

theorem noting (nests : table.Nests) (key : List FoldedName) (name : FoldedName) :
    (NamespaceTable.mk (table.entries.map (NamespaceTable.noting key name))).Nests := by
  refine ⟨?_, List.forall_mem_map.2 fun entry listed => ?_, List.forall_mem_map.2 fun entry listed => ?_, ?_⟩
  · rw [List.map_map]
    exact (List.map_congr_left fun entry _ => key_noting entry).symm ▸ nests.apart
  · rw [parts_noting]
    exact nests.areParts entry listed
  · rw [parts_noting]
    intro parts own isParts
    obtain ⟨space, among, same⟩ := nests.around entry listed parts own isParts
    exact ⟨_, List.mem_map_of_mem among, (parts_noting space).trans same⟩
  · obtain ⟨root, isRoot, bare⟩ := nests.root
    exact ⟨_, List.getElem?_map.trans (congrArg _ isRoot), (parts_noting root).trans bare⟩

theorem start : Nests {} where
  apart := List.nodup_singleton _
  areParts entry listed := by simp_all
  around entry listed parts own isParts := by simp_all
  root := ⟨_, rfl, rfl⟩

end Nests

end NamespaceTable

def Namespace.node (space : Namespace) : NamespaceNode := ⟨space.path, space.types⟩

theorem NamespaceTable.node_noting (key : List FoldedName) (name : FoldedName) (entry : Namespace) :
    (noting key name entry).node =
      if entry.key = key then
        if entry.node.types.contains name then entry.node
        else { entry.node with types := entry.node.types ++ [name] }
      else entry.node := by
  unfold noting Namespace.node
  by_cases isKey : entry.key = key
  · by_cases known : name ∈ entry.types <;> simp [isKey, known, Namespace.path]
  · simp [isKey]

theorem intercalate_concat (first : String) (rest : List String) (last : String) :
    ".".intercalate (first :: rest ++ [last]) = ".".intercalate (first :: rest) ++ "." ++ last := by
  induction rest generalizing first with
  | nil => simp
  | cons next rest ih =>
    rw [List.cons_append, List.cons_append, String.intercalate_cons_cons, ← List.cons_append, ih next,
      String.intercalate_cons_cons]
    simp [String.append_assoc]

theorem Namespace.path_within {space : Namespace} (areParts : ∀ part ∈ space.parts, IsPart part)
    (part : String) : (space.within [part]).path =
      if space.path.isEmpty then part else space.path ++ "." ++ part := by
  rw [path, within, path]
  cases isParts : space.parts with
  | nil => simp
  | cons first rest =>
    have filled : first ≠ "" := (areParts first (isParts ▸ List.mem_cons_self)).filled
    have notEmpty : (".".intercalate (first :: rest)).isEmpty = false := by
      cases rest <;> simp [filled]
    rw [notEmpty, intercalate_concat]
    rfl

namespace NamespaceGraph

structure Refines (graph : NamespaceGraph) (table : NamespaceTable) : Prop where
  nodes : graph.nodes = table.entries.map Namespace.node
  edges : ∀ around part inner, ⟨around, part, inner⟩ ∈ graph.edges ↔ ∃ space entry,
    table.entries[around]? = some space ∧ table.entries[inner]? = some entry ∧
      entry.parts = space.parts ++ [part]

namespace Refines

variable {graph : NamespaceGraph} {table : NamespaceTable} {space : Namespace} {around : Nat}
  {part : String}

theorem child?_eq (refines : graph.Refines table) (nests : table.Nests)
    (here : table.entries[around]? = some space) (part : String) :
    graph.child? around part = table.number? (space.parts ++ [part]) := by
  have leads (inner : Nat) : (∃ own, ⟨around, own, inner⟩ ∈ graph.edges ∧ sameName own part) ↔
      table.number? (space.parts ++ [part]) = some inner := by
    rw [nests.number?_eq_some_iff]
    constructor
    · rintro ⟨own, listed, same⟩
      obtain ⟨outer, entry, isOuter, isEntry, parts⟩ := (refines.edges _ _ _).1 listed
      obtain rfl := Option.some.inj (here.symm.trans isOuter)
      refine ⟨entry, isEntry, ?_⟩
      rw [Namespace.key, parts, List.map_append, List.map_append, List.map_singleton,
        List.map_singleton, eq_of_beq same]
    · rintro ⟨entry, isEntry, isKey⟩
      rw [List.map_append] at isKey
      obtain ⟨own, parts, same⟩ := nests.parts_eq (List.mem_of_getElem? here)
        (List.mem_of_getElem? isEntry) isKey
      exact ⟨own, (refines.edges _ _ _).2 ⟨space, entry, here, isEntry, parts⟩, same⟩
  rw [child?]
  cases found : graph.edges.find? fun edge => edge.around == around && sameName edge.part part with
  | none =>
    refine Eq.symm (Option.eq_none_iff_forall_ne_some.2 fun inner isNumber => ?_)
    obtain ⟨own, listed, same⟩ := (leads inner).2 isNumber
    have differs := List.find?_eq_none.1 found _ listed
    simp [same] at differs
  | some edge =>
    have matching := List.find?_some found
    rw [Bool.and_eq_true, beq_iff_eq] at matching
    obtain ⟨isAround, same⟩ := matching
    refine Eq.symm ((leads edge.inner).1 ⟨edge.part, ?_, same⟩)
    exact isAround ▸ List.mem_of_find?_eq_some found

/-- A namespace that is missing within another becomes a node with an edge to it. -/
theorem concat (refines : graph.Refines table) (nests : table.Nests)
    (here : table.entries[around]? = some space) (absent : table.get? (space.parts ++ [part]) = none) :
    Refines
      { nodes := graph.nodes ++ [(space.within [part]).node]
        edges := ⟨around, part, graph.nodes.length⟩ :: graph.edges }
      ⟨table.entries ++ [space.within [part]]⟩ := by
  have listed := List.mem_of_getElem? here
  have count : graph.nodes.length = table.entries.length := by rw [refines.nodes, List.length_map]
  -- no namespace has the parts of the new one, or is within it
  have unlike {entry : Namespace} (among : entry ∈ table.entries) :
      entry.parts ≠ space.parts ++ [part] := fun same =>
    NamespaceTable.get?_eq_none_iff.1 absent ⟨entry, among, congrArg (List.map FoldedName.of) same⟩
  refine ⟨by rw [refines.nodes, List.map_append, List.map_singleton], fun outer own inner => ?_⟩
  rw [List.mem_cons, refines.edges, count]
  constructor
  · rintro (new | ⟨first, entry, isFirst, isEntry, parts⟩)
    · cases new
      refine ⟨space, space.within [part], ?_, List.getElem?_concat_length, rfl⟩
      exact (List.getElem?_append_left (List.getElem?_eq_some_iff.1 here).1).trans here
    · exact ⟨first, entry, (List.getElem?_append_left (List.getElem?_eq_some_iff.1 isFirst).1).trans isFirst,
        (List.getElem?_append_left (List.getElem?_eq_some_iff.1 isEntry).1).trans isEntry, parts⟩
  · rintro ⟨first, entry, isFirst, isEntry, parts⟩
    have cases {number : Nat} {found : Namespace}
        (isFound : (table.entries ++ [space.within [part]])[number]? = some found) :
        table.entries[number]? = some found ∨
          number = table.entries.length ∧ found = space.within [part] := by
      rw [List.getElem?_append] at isFound
      split at isFound
      · exact .inl isFound
      · rw [List.getElem?_singleton] at isFound
        split at isFound
        · exact .inr ⟨by omega, (Option.some.inj isFound).symm⟩
        · exact nomatch isFound
    rcases cases isEntry with old | ⟨rfl, rfl⟩
    · rcases cases isFirst with isOld | ⟨-, rfl⟩
      · exact .inr ⟨first, entry, isOld, old, parts⟩
      · obtain ⟨between, among, same⟩ := nests.around entry (List.mem_of_getElem? old) _ _ parts
        exact absurd same (unlike among)
    · obtain ⟨same, isOwn⟩ := List.append_inj' parts rfl
      obtain rfl := List.singleton_inj.1 isOwn
      rcases cases isFirst with isOld | ⟨-, rfl⟩
      · have number := nests.number?_eq_some_iff.2 ⟨first, isOld, rfl⟩
        rw [← same] at number
        have number' := nests.number?_eq_some_iff.2 ⟨space, here, rfl⟩
        obtain rfl := Option.some.inj (number.symm.trans number')
        exact .inl rfl
      · exact absurd (congrArg List.length same) (by simp [Namespace.within])

theorem foldl_makeChild (refines : graph.Refines table) (nests : table.Nests)
    (here : table.entries[around]? = some space) {parts : List String}
    (areParts : ∀ part ∈ parts, IsPart part) {made : NamespaceGraph × Nat}
    (makes : parts.foldl (fun (graph, around) part => graph.makeChild around part) (graph, around) = made) :
    made.1.Refines (NamespaceTable.insert.go table space.parts parts) ∧
      (NamespaceTable.insert.go table space.parts parts).Nests ∧
      ∃ last, (NamespaceTable.insert.go table space.parts parts).entries[made.2]? = some last ∧
        last.key = space.key ++ parts.map .of := by
  induction parts generalizing graph table around space with
  | nil =>
    subst makes
    exact ⟨refines, nests, space, here, (List.append_nil _).symm⟩
  | cons part rest ih =>
    obtain ⟨isPart, areParts⟩ := List.forall_mem_cons.1 areParts
    change rest.foldl _ (graph.makeChild around part) = made at makes
    rw [makeChild, refines.child?_eq nests here] at makes
    rw [NamespaceTable.insert.go]
    cases isNext : table.get? (space.parts ++ [part]) with
    | some next =>
      obtain ⟨listed, isKey⟩ := NamespaceTable.get?_eq_some isNext
      obtain ⟨inner, isInner⟩ := List.getElem?_of_mem listed
      rw [nests.number?_eq_some_iff.2 ⟨next, isInner, isKey⟩] at makes
      obtain ⟨refined, nested, last, isLast, lastKey⟩ := ih refines nests isInner areParts makes
      refine ⟨refined, nested, last, isLast, lastKey.trans ?_⟩
      rw [isKey, List.map_append, List.append_assoc]
      rfl
    | none =>
      have noNumber : table.number? (space.parts ++ [part]) = none := by
        refine Option.eq_none_iff_forall_ne_some.2 fun number isNumber => ?_
        obtain ⟨_, -, found⟩ := NamespaceTable.exists_of_number? isNumber
        cases isNext.symm.trans found
      have outer : ((graph.nodes[around]?).map (·.path)).getD "" = space.path := by
        rw [refines.nodes, List.getElem?_map, here]
        rfl
      have node : NamespaceNode.mk (if space.path.isEmpty then part else space.path ++ "." ++ part) [] =
          (space.within [part]).node := by
        rw [Namespace.node, Namespace.path_within (nests.areParts space (List.mem_of_getElem? here))]
        rfl
      rw [noNumber] at makes
      dsimp only at makes
      rw [outer, node] at makes
      have isInner : (table.entries ++ [space.within [part]])[graph.nodes.length]? =
          some (space.within [part]) := by
        rw [refines.nodes, List.length_map, List.getElem?_concat_length]
      obtain ⟨refined, nested, last, isLast, lastKey⟩ := ih (refines.concat nests here isNext)
        (nests.concat (List.mem_of_getElem? here) isPart isNext) isInner areParts makes
      refine ⟨refined, nested, last, isLast, lastKey.trans ?_⟩
      rw [Namespace.key_within, List.append_assoc]
      rfl

theorem addType (refines : graph.Refines table) (nests : table.Nests) (space name : String) :
    (graph.addType space name).Refines (table.addType (namespaceParts space) name) ∧
      (table.addType (namespaceParts space) name).Nests := by
  obtain ⟨root, isRoot, bare⟩ := nests.root
  have key : root.key = [] := by rw [Namespace.key, bare, List.map_nil]
  obtain ⟨refined, nested, last, isLast, lastKey⟩ := refines.foldl_makeChild nests isRoot
    (fun part listed => isPart_of_mem listed) (rfl : _ = graph.makePath space)
  rw [key, List.nil_append] at lastKey
  rw [bare] at refined nested isLast
  have adds : graph.addType space name = ⟨(graph.makePath space).1.nodes.modify (graph.makePath space).2
      fun node => if node.types.contains (.of name) then node
        else { node with types := node.types ++ [.of name] }, (graph.makePath space).1.edges⟩ := rfl
  generalize graph.makePath space = made at adds refined isLast
  have entries := table.entries_addType (namespaceParts space) name
  rw [NamespaceTable.insert] at entries
  rw [adds]
  refine ⟨⟨List.ext_getElem? fun index => ?_, fun around part inner => ?_⟩, nested.noting _ _⟩
  · rw [List.getElem?_modify, refined.nodes, entries, List.map_map, List.getElem?_map, List.getElem?_map]
    cases isEntry : (NamespaceTable.insert.go table [] (namespaceParts space)).entries[index]? with
    | none => rfl
    | some entry =>
      have isHere : made.2 = index ↔ entry.key = (namespaceParts space).map .of := by
        have number := nested.number?_eq_some_iff.2 ⟨last, isLast, lastKey⟩
        refine ⟨fun same => ?_, fun isKey => ?_⟩
        · rw [same] at isLast
          rw [Option.some.inj (isEntry.symm.trans isLast), lastKey]
        · exact Option.some.inj (number.symm.trans
            (nested.number?_eq_some_iff.2 ⟨entry, isEntry, isKey⟩))
      rw [Option.map_some, Option.map_some, Option.map_eq_map, Option.map_some, Function.comp_apply,
        NamespaceTable.node_noting]
      simp only [isHere]
  · rw [refined.edges, entries]
    simp only [List.getElem?_map, Option.map_eq_some_iff]
    constructor
    · rintro ⟨outer, entry, isOuter, isEntry, parts⟩
      refine ⟨_, _, ⟨outer, isOuter, rfl⟩, ⟨entry, isEntry, rfl⟩, ?_⟩
      rwa [NamespaceTable.parts_noting, NamespaceTable.parts_noting]
    · rintro ⟨_, _, ⟨outer, isOuter, rfl⟩, ⟨entry, isEntry, rfl⟩, parts⟩
      rw [NamespaceTable.parts_noting, NamespaceTable.parts_noting] at parts
      exact ⟨outer, entry, isOuter, isEntry, parts⟩

theorem foldlM_child? (refines : graph.Refines table) (nests : table.Nests)
    (here : table.entries[around]? = some space) (parts : List String) :
    parts.foldlM graph.child? around = table.number? (space.parts ++ parts) := by
  induction parts generalizing around space with
  | nil =>
    rw [List.append_nil, nests.number?_eq_some_iff.2 ⟨space, here, rfl⟩]
    rfl
  | cons part rest ih =>
    rw [List.foldlM_cons, refines.child?_eq nests here]
    cases isNumber : table.number? (space.parts ++ [part]) with
    | none =>
      refine Eq.symm (Option.eq_none_iff_forall_ne_some.2 fun number further => ?_)
      obtain ⟨entry, listed, isKey⟩ := nests.number?_eq_some_iff.1 further
      obtain ⟨outer, among, outerKey⟩ := nests.closed ((space.parts ++ [part]).map .of) (rest.map .of)
        ⟨entry, List.mem_of_getElem? listed, by rw [isKey]; simp⟩
      obtain ⟨index, isOuter⟩ := List.getElem?_of_mem among
      exact nomatch isNumber.symm.trans (nests.number?_eq_some_iff.2 ⟨outer, isOuter, outerKey⟩)
    | some inner =>
      obtain ⟨entry, listed, isKey⟩ := nests.number?_eq_some_iff.1 isNumber
      refine (ih listed).trans ?_
      rw [NamespaceTable.number?, NamespaceTable.number?, List.map_append, ← Namespace.key, isKey]
      simp

end Refines

def ofNotes (notes : List (String × String)) : NamespaceGraph :=
  notes.foldl (fun graph (space, name) => graph.addType space name) {}

theorem refines_ofNotes (notes : List (String × String)) :
    (ofNotes notes).Refines (.ofNotes notes) ∧ (NamespaceTable.ofNotes notes).Nests := by
  induction notes using List.reverseRecOn with
  | nil =>
    refine ⟨⟨rfl, fun around part inner => iff_of_false List.not_mem_nil ?_⟩, .start⟩
    rintro ⟨space, entry, -, isEntry, parts⟩
    have none := List.mem_of_getElem? isEntry
    rw [List.mem_singleton.1 none] at parts
    exact absurd parts.symm (List.append_ne_nil_of_right_ne_nil _ (List.cons_ne_nil _ _))
  | append_singleton notes note ih =>
    rw [ofNotes, NamespaceTable.ofNotes, List.foldl_append, List.foldl_append]
    exact ih.1.addType ih.2 note.1 note.2

/-- The graph of namespaces answers as the table does that lists them: a namespace is found at its number by
the edges that its parts lead along, and has its path and its types there. -/
theorem ofNotes_refines (notes : List (String × String)) :
    (ofNotes notes).Refines (.ofNotes notes) ∧
    (∀ space, (ofNotes notes).path? space =
      (NamespaceTable.ofNotes notes).number? (namespaceParts space)) ∧
    (∀ space name, (ofNotes notes).declares space name =
      (NamespaceTable.ofNotes notes).declares (namespaceParts space) name) ∧
    ∀ name, (ofNotes notes).declaring name = (NamespaceTable.ofNotes notes).declaring name := by
  obtain ⟨refines, nests⟩ := refines_ofNotes notes
  obtain ⟨root, isRoot, bare⟩ := nests.root
  have paths (space : String) : (ofNotes notes).path? space =
      (NamespaceTable.ofNotes notes).number? (namespaceParts space) := by
    rw [path?, refines.foldlM_child? nests isRoot, bare, List.nil_append]
  refine ⟨refines, paths, fun space name => ?_, fun name => ?_⟩
  · rw [declares, paths, NamespaceTable.declares, refines.nodes]
    cases isNumber : (NamespaceTable.ofNotes notes).number? (namespaceParts space) with
    | none =>
      have none : (NamespaceTable.ofNotes notes).get? (namespaceParts space) = none :=
        List.find?_eq_none.2 fun entry listed => by
          simpa using List.findIdx?_eq_none_iff.1 isNumber entry listed
      rw [none]
      rfl
    | some number =>
      obtain ⟨entry, listed, found⟩ := NamespaceTable.exists_of_number? isNumber
      rw [found, Option.bind_some, List.getElem?_map, listed]
      rfl
  · rw [declaring, NamespaceTable.declaring, refines.nodes, List.filter_map, List.map_map]
    rfl

end NamespaceGraph

end ScriptMigration
