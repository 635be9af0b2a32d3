import Mathlib.Data.List.DropRight
import ScriptMigration.Proofs.Output.Imports
import ScriptMigration.Proofs.SymbolTable.Declared

/-! The names with which a script writes external types. A type whose simple name two imported namespaces
declare is written with its full name, so types of one simple name are written differently where the table
lists them in their namespaces. Those of the global namespace, which is not imported, and those that no
namespace declares can be written alike. -/
namespace ScriptMigration

theorem one_lt_length {α : Type} {items : List α} {first second : α} (isFirst : first ∈ items)
    (isSecond : second ∈ items) (differ : first ≠ second) : 1 < items.length := by
  match items with
  | [item] => exact absurd ((List.mem_singleton.1 isFirst).trans (List.mem_singleton.1 isSecond).symm) differ
  | _ :: _ :: _ => simp

namespace Imports

def lastPart (name : String) : String := String.ofList (name.toList.rtakeWhile (· != '.'))

theorem foldCase_lastPart (name : String) : foldCase (lastPart name) = lastPart (foldCase name) := by
  have dot (c : Char) : (c.toLower != '.') = (c != '.') :=
    congrArg (!·) (beq_toLower '.' rfl c)
  apply String.ext
  simp only [foldCase, FoldedName.of, lastPart, List.rtakeWhile, String.toList_map, String.toList_ofList,
    ← List.map_reverse, List.takeWhile_map, Function.comp_def, dot]

theorem sameName_lastPart {left right : String} (same : sameName left right) :
    sameName (lastPart left) (lastPart right) := by
  rw [sameName_iff_foldCase, foldCase_lastPart, foldCase_lastPart, sameName_iff_foldCase.1 same]

theorem lastPart_of_plain {name : String} (plain : '.' ∉ name.toList) : lastPart name = name := by
  have kept : name.toList.rtakeWhile (· != '.') = name.toList :=
    List.rtakeWhile_eq_self_iff.2 fun c listed => bne_iff_ne.2 (ne_of_mem_of_not_mem listed plain)
  rw [lastPart, kept, String.ofList_toList]

theorem lastPart_append_dot (space : String) {name : String} (plain : '.' ∉ name.toList) :
    lastPart (space ++ "." ++ name) = name := by
  have kept : (space ++ "." ++ name).toList.rtakeWhile (· != '.') = name.toList := by
    rw [String.toList_append, String.toList_append, List.rtakeWhile, List.reverse_append,
      List.takeWhile_append_of_pos fun c listed =>
        bne_iff_ne.2 (ne_of_mem_of_not_mem (List.mem_reverse.1 listed) plain), List.reverse_append]
    simp
  rw [lastPart, kept, String.ofList_toList]

theorem lastPart_printedName (imports : Imports) (space : String) {name : String}
    (plain : '.' ∉ name.toList) : lastPart (imports.printedName space name) = name := by
  unfold printedName
  dsimp only
  split
  · exact lastPart_append_dot space plain
  · exact lastPart_of_plain plain

end Imports

namespace Draft

variable {draft : Draft} {script : ScriptId} {symbols : SymbolTable} {base : String}
  {first second : ExternalType}

theorem fullName_of_filled {type : ExternalType} (filled : type.space ≠ "") :
    type.fullName = type.space ++ "." ++ type.name :=
  if_neg (by simpa using filled)

variable (draft script symbols base) in
theorem any_namespaces (space : String) :
    (draft.imports script symbols base).namespaces.any (sameName · space) =
      ((draft.demand script symbols base).filter (!·.isEmpty)).any (sameName · space) := by
  have any_iff (spaces : List String) :
      spaces.any (sameName · space) = true ↔ FoldedName.of space ∈ spaces.map FoldedName.of := by
    simp [sameName]
  rw [Bool.eq_iff_iff, any_iff, any_iff, (draft.map_namespaces_perm script symbols base).mem_iff,
    List.mem_eraseDups]

variable (draft script symbols base) in
/-- A type is written with its full name where that is the full name of a used type whose simple name is
ambiguous. -/
theorem printedName_imports (space name : String) :
    (draft.imports script symbols base).printedName space name =
      if (draft.externalTypes symbols).any fun type =>
          symbols.isAmbiguous type.name ((draft.demand script symbols base).filter (!·.isEmpty)) &&
            sameName type.fullName (space ++ "." ++ name)
      then space ++ "." ++ name else name := by
  have ambiguous (type : ExternalType) :
      symbols.isAmbiguous type.name (draft.imports script symbols base).namespaces =
        symbols.isAmbiguous type.name ((draft.demand script symbols base).filter (!·.isEmpty)) := by
    simp only [SymbolTable.isAmbiguous, any_namespaces]
  have qualified (full : String) :
      (draft.imports script symbols base).qualified.any (sameName · full) =
        (draft.externalTypes symbols).any fun type =>
          symbols.isAmbiguous type.name (draft.imports script symbols base).namespaces &&
            sameName type.fullName full := by
    rw [Bool.eq_iff_iff]
    simp only [imports, List.any_eq_true, List.mem_mergeSort, List.mem_eraseDups, List.mem_map,
      exists_exists_and_eq_and]
    simp only [List.mem_filter, Bool.and_eq_true, and_assoc]
  simp only [Imports.printedName, qualified, ambiguous]

/-- A type is written with its full name where another used type has its simple name in another
namespace. -/
theorem printedName_of_places (built : symbols.Built) (isFirst : first ∈ draft.externalTypes symbols)
    (isSecond : second ∈ draft.externalTypes symbols) (places : symbols.Places first)
    (places' : symbols.Places second) (names : sameName first.name second.name)
    (spaces : ¬ sameName first.space second.space) :
    (draft.imports script symbols base).printedName first.space first.name = first.fullName := by
  obtain ⟨entry, listed, declares, spelt⟩ := built.declares places
  obtain ⟨entry', listed', declares', spelt'⟩ := built.declares places'
  rw [← eq_of_beq names] at declares'
  have among {entry : Namespace} {type : ExternalType} (used : type ∈ draft.externalTypes symbols)
      (filled : type.space ≠ "") (listed : entry ∈ symbols.namespaces.entries)
      (declares : FoldedName.of first.name ∈ entry.types) (spelt : sameName entry.path type.space) :
      entry.path ∈ (symbols.namespaces.declaring first.name).filter fun space =>
        ((draft.demand script symbols base).filter (!·.isEmpty)).any (sameName · space) := by
    refine List.mem_filter.2 ⟨List.mem_map_of_mem (List.mem_filter.2 ⟨listed, by simpa using declares⟩),
      List.any_eq_true.2 ⟨type.space, List.mem_filter.2 ⟨?_, by simpa using filled⟩, ?_⟩⟩
    · exact List.mem_append_left _ (List.mem_map_of_mem used)
    · rwa [sameName_comm]
  have ambiguous : symbols.isAmbiguous first.name
      ((draft.demand script symbols base).filter (!·.isEmpty)) = true := by
    have differ : entry.path ≠ entry'.path := fun same => spaces <| by
      rw [same] at spelt
      exact beq_iff_eq.2 ((eq_of_beq spelt).symm.trans (eq_of_beq spelt'))
    rw [SymbolTable.isAmbiguous, decide_eq_true_iff]
    exact one_lt_length (among isFirst places.isPath.filled listed declares spelt)
      (among isSecond places'.isPath.filled listed' declares' spelt') differ
  have full := fullName_of_filled places.isPath.filled
  rw [printedName_imports, full]
  refine if_pos (List.any_eq_true.2 ⟨first, isFirst, ?_⟩)
  rw [ambiguous, full]
  exact beq_self_eq_true (FoldedName.of _)

def threeNamesText : String := "Public Sub S()\n c1\n c2\n c3\nEnd Sub\n"

theorem calls_threeNames :
    (parseModule threeNamesText "M").toOption.any (·.root.calls ["c1", "c2", "c3"]) := by
  decide +kernel

def threeNumbers (first second third : ExternalType) : List SymbolConstant :=
  numbers [("c1", first), ("c2", second), ("c3", third)]

def threeNamesTable (listed : List ExternalType) (first second third : ExternalType) : SymbolTable :=
  .listing listed (threeNumbers first second third)

def writtenName (listed used : List ExternalType) (space name : String) : String :=
  let table : SymbolTable := { namespaces := .ofTypes listed }
  if used.any fun type => table.isAmbiguous type.name ((used.map (·.space)).filter (!·.isEmpty)) &&
      sameName type.fullName (space ++ "." ++ name)
  then space ++ "." ++ name else name

section ThreeNames

variable {listed : List ExternalType} {one two three : ExternalType}

theorem nodup_threeNumbers : ((threeNumbers one two three).map SymbolConstant.print).Nodup := by
  rw [threeNumbers, map_print_numbers]
  change [Fingerprint.ofGlobal "c1", .ofGlobal "c2", .ofGlobal "c3"].Nodup
  decide +kernel

/-- Types that can be told apart are all used, and how they are written is decided by what the table
lists. -/
theorem exists_threeNames (lists : (listed.map ExternalType.print).Nodup)
    (uses : ([one, two, three].map ExternalType.print).Nodup) : ∃ module resolved,
    parseModule threeNamesText "M" = .ok module ∧
    ((ScriptStore.alone module).resolve (threeNamesTable listed one two three) {} (.withCapacity 8)
      ⟨0⟩).store.draft? ⟨0⟩ = some resolved ∧
    resolved.externalTypes (threeNamesTable listed one two three) = [one, two, three] ∧
    ∀ base space name,
      (resolved.imports ⟨0⟩ (threeNamesTable listed one two three) base).printedName space name =
        writtenName listed [one, two, three] space name := by
  obtain ⟨module, resolved, parsed, found, calls⟩ := ScriptStore.exists_calls listed
    (threeNumbers one two three) calls_threeNames lists nodup_threeNumbers (plain_numbers _ _)
  have touches : resolved.touched (threeNamesTable listed one two three) = [one, two, three] :=
    calls.touched_eq fun _ => SymbolTable.constant?_listing lists nodup_threeNumbers
  have types : resolved.externalTypes (threeNamesTable listed one two three) = [one, two, three] := by
    rw [← eraseDupsBy_of_nodup_map ExternalType.print uses, ← touches]
    rfl
  have spaces : (threeNamesTable listed one two three).namespaces = .ofTypes listed :=
    (SymbolTable.listing_eq lists nodup_threeNumbers).2.2
  refine ⟨module, resolved, parsed, found, types, fun base space name => ?_⟩
  rw [printedName_imports, calls.demand_eq, types]
  simp only [SymbolTable.isAmbiguous, spaces]
  rfl

end ThreeNames

structure WrittenAlike (draft : Draft) (symbols : SymbolTable) (first second : ExternalType) : Prop where
  built : symbols.Built
  isFirst : first ∈ draft.externalTypes symbols
  isSecond : second ∈ draft.externalTypes symbols
  prints : first.print ≠ second.print
  names : ¬ sameName first.fullName second.fullName
  alike : sameName ((draft.imports ⟨0⟩ symbols "Migrated").printedName first.space first.name)
    ((draft.imports ⟨0⟩ symbols "Migrated").printedName second.space second.name)

def AlikeInScript (listed : List ExternalType) (first second third : ExternalType) : Prop :=
  ∃ module resolved, parseModule threeNamesText "M" = .ok module ∧
    ((ScriptStore.alone module).resolve (threeNamesTable listed first second third) {} (.withCapacity 8)
      ⟨0⟩).store.draft? ⟨0⟩ = some resolved ∧
    resolved.WrittenAlike (threeNamesTable listed first second third) first second

theorem AlikeInScript.of_writtenName {listed : List ExternalType} {first second third : ExternalType}
    (lists : (listed.map ExternalType.print).Nodup)
    (uses : ([first, second, third].map ExternalType.print).Nodup)
    (names : ¬ sameName first.fullName second.fullName)
    (alike : sameName (writtenName listed [first, second, third] first.space first.name)
      (writtenName listed [first, second, third] second.space second.name)) :
    AlikeInScript listed first second third := by
  obtain ⟨module, resolved, parsed, found, types, written⟩ := exists_threeNames lists uses
  have prints : first.print ≠ second.print := fun same => by simp [same] at uses
  refine ⟨module, resolved, parsed, found, SymbolTable.built_after _, ?_, ?_, prints, names, ?_⟩
  · simp [types]
  · simp [types]
  · rwa [written, written]

def typeIn (space name : String) : ExternalType where
  space
  name
  assembly := { name := "Custom" }

variable (script base) in
/-- Types of different full names that a draft uses are written differently. Where they have one simple
name, this takes that the table lists both in their namespaces, and where they have not, that their simple
names are without dots. -/
theorem printedName_ne (built : symbols.Built) (isFirst : first ∈ draft.externalTypes symbols)
    (isSecond : second ∈ draft.externalTypes symbols) (differ : ¬ sameName first.fullName second.fullName)
    (listed : sameName first.name second.name → symbols.Places first ∧ symbols.Places second)
    (plain : ¬ sameName first.name second.name → '.' ∉ first.name.toList ∧ '.' ∉ second.name.toList) :
    ¬ sameName ((draft.imports script symbols base).printedName first.space first.name)
      ((draft.imports script symbols base).printedName second.space second.name) := by
  intro alike
  by_cases names : sameName first.name second.name
  · -- both are written with their full names
    obtain ⟨places, places'⟩ := listed names
    have spaces : ¬ sameName first.space second.space := fun spaces => differ <| by
      rw [fullName_of_filled places.isPath.filled, fullName_of_filled places'.isPath.filled,
        sameName_iff_foldCase]
      rw [sameName_iff_foldCase] at names spaces
      simp only [foldCase, FoldedName.text_append] at names spaces ⊢
      rw [names, spaces]
    have spaces' : ¬ sameName second.space first.space := sameName_comm _ _ ▸ spaces
    rw [printedName_of_places built isFirst isSecond places places' names spaces,
      printedName_of_places built isSecond isFirst places' places (sameName_comm _ _ ▸ names) spaces']
      at alike
    exact differ alike
  · -- both end with their simple names
    obtain ⟨plain, plain'⟩ := plain names
    have parts := Imports.sameName_lastPart alike
    rw [Imports.lastPart_printedName _ _ plain, Imports.lastPart_printedName _ _ plain'] at parts
    exact names parts

/-- Of three types that the table lists, those of one simple name are written with their full names, and
the other is written with its own. -/
theorem printedName_ne_homonyms :
    let listed := [typeIn "A" "X", typeIn "B" "X", typeIn "B" "Y"]
    let symbols := threeNamesTable listed (typeIn "A" "X") (typeIn "B" "X") (typeIn "B" "Y")
    ∃ module resolved, parseModule threeNamesText "M" = .ok module ∧
      ((ScriptStore.alone module).resolve symbols {} (.withCapacity 8) ⟨0⟩).store.draft? ⟨0⟩ =
        some resolved ∧
      ¬ sameName ((resolved.imports ⟨0⟩ symbols "Migrated").printedName "A" "X")
        ((resolved.imports ⟨0⟩ symbols "Migrated").printedName "B" "X") ∧
      ¬ sameName ((resolved.imports ⟨0⟩ symbols "Migrated").printedName "A" "X")
        ((resolved.imports ⟨0⟩ symbols "Migrated").printedName "B" "Y") := by
  intro listed symbols
  have apart : (listed.map ExternalType.print).Nodup := by decide +kernel
  obtain ⟨module, resolved, parsed, found, types, -⟩ := exists_threeNames apart apart
  have uses (type : ExternalType) (isListed : type ∈ listed) : type ∈ resolved.externalTypes symbols :=
    types ▸ isListed
  have built : symbols.Built := SymbolTable.built_after _
  have places (type : ExternalType) (isListed : type ∈ listed) (isPath : IsPath type.space) :
      symbols.Places type := SymbolTable.places_listing apart nodup_threeNumbers isListed isPath
  have isFirst : typeIn "A" "X" ∈ listed := List.mem_cons_self
  have isSecond : typeIn "B" "X" ∈ listed := List.mem_cons_of_mem _ List.mem_cons_self
  have isThird : typeIn "B" "Y" ∈ listed :=
    List.mem_cons_of_mem _ (List.mem_cons_of_mem _ List.mem_cons_self)
  have homonyms := printedName_ne ⟨0⟩ "Migrated" built (uses _ isFirst) (uses _ isSecond)
    (by decide +kernel)
    (fun _ => ⟨places _ isFirst (by decide +kernel), places _ isSecond (by decide +kernel)⟩)
    (fun differ => absurd (by decide +kernel) differ)
  have others := printedName_ne ⟨0⟩ "Migrated" built (uses _ isFirst) (uses _ isThird)
    (by decide +kernel) (fun same => absurd same (by decide +kernel)) (fun _ => by decide +kernel)
  exact ⟨module, resolved, parsed, found, homonyms, others⟩

/-- Types of one simple name are written alike where one is of the global namespace, where the table lists
neither, and where an empty part of a namespace is lost in the table. Types of different simple names are
where one of these has a dot. -/
theorem printedName_colliding :
    AlikeInScript [typeIn "" "X", typeIn "Lib" "X", typeIn "Lib" "Y"]
      (typeIn "" "X") (typeIn "Lib" "X") (typeIn "Lib" "Y") ∧
    AlikeInScript [] (typeIn "A" "X") (typeIn "B" "X") (typeIn "B" "Y") ∧
    AlikeInScript [typeIn "A..B" "X", typeIn "C" "X", typeIn "C" "Y"]
      (typeIn "A..B" "X") (typeIn "C" "X") (typeIn "C" "Y") ∧
    AlikeInScript [typeIn "Q" "A.X", typeIn "A" "X", typeIn "B" "X"]
      (typeIn "Q" "A.X") (typeIn "A" "X") (typeIn "B" "X") := by
  refine ⟨.of_writtenName ?_ ?_ ?_ ?_, .of_writtenName ?_ ?_ ?_ ?_, .of_writtenName ?_ ?_ ?_ ?_,
    .of_writtenName ?_ ?_ ?_ ?_⟩
  all_goals decide +kernel

end Draft

end ScriptMigration
