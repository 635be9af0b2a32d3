import ScriptMigration.Output.Static
import ScriptMigration.Proofs.Output.Resources
import ScriptMigration.Proofs.Reshape.Creation
import ScriptMigration.Proofs.Resolution.Procedures
import ScriptMigration.Proofs.Syntax.Tree
import ScriptMigration.Reshape.Localization

/-! Texts that a script has translated. A text cannot spell a reference to a text that was moved
elsewhere, and neither resolving a script nor what is done to it next makes one, so every reference that
is left in the finished tree is to an entry of the table. The calls are found before any of them is
replaced, so an entry is referred to exactly if its text is translated somewhere outside all other such
calls: the reference that replaces a call takes the calls in it out of the tree. -/
namespace ScriptMigration

namespace Shape

variable {α β : Type}

def resource? : Shape α → Option ResourceText
  | resource key text => some ⟨key, text⟩
  | _ => none

@[simp] theorem resource?_mapParts (shape : Shape α) (f : (a : α) → a ∈ shape.children → β) :
    (shape.mapParts f).resource? = shape.resource? := by
  cases shape with
  | loop test body => cases test <;> rfl
  | _ => rfl

theorem resource?_eq_some {shape : Shape α} {entry : ResourceText} :
    shape.resource? = some entry ↔ shape = .resource entry.name entry.value := by
  rcases entry with ⟨key, text⟩
  cases shape <;> simp [resource?]

theorem resource?_of_isSource {shape : Shape α} (source : shape.isSource) :
    shape.resource? = none := by
  cases shape <;> first | rfl | exact nomatch source

end Shape

namespace Node

def Unmoved (root : Node) : Prop := ∀ node ∈ root.descendants, node.shape.resource? = none

namespace Unmoved

variable {root node part : Node} {f : Node → Node}

theorem child (unmoved : root.Unmoved) (inside : part ∈ root.children) : part.Unmoved :=
  fun _ lies => unmoved _ (mem_descendants_of_child inside lies)

theorem here (unmoved : root.Unmoved) : root.shape.resource? = none :=
  unmoved root root.mem_descendants_self

theorem ofParts (here : node.shape.resource? = none) (parts : ∀ part ∈ node.children, part.Unmoved) :
    node.Unmoved := forall_of_parts here parts

theorem ofBare (bare : node.children = []) (here : node.shape.resource? = none) : node.Unmoved :=
  forall_of_bare bare here

theorem withParts {g : Node → Node} (unmoved : node.Unmoved)
    (parts : ∀ part ∈ node.children, (g part).Unmoved) : (node.withParts g).Unmoved := by
  refine ofParts ((Shape.resource?_mapParts node.shape _).trans unmoved.here) fun part isPart => ?_
  rw [children_withParts] at isPart
  obtain ⟨old, among, rfl⟩ := List.mem_map.1 isPart
  exact parts old among

variable (keeps : ∀ node : Node, node.Unmoved → (f node).Unmoved) (unmoved : root.Unmoved)

include keeps unmoved

theorem mapUp : (root.mapUp f).Unmoved := by
  induction root using Node.induction with
  | step root ih =>
    rw [mapUp_eq]
    exact keeps _ (unmoved.withParts fun part inside => ih part inside (unmoved.child inside))

theorem mapInType : (root.mapInType f).Unmoved := by
  induction root using Node.induction with
  | step root ih =>
    rw [mapInType_eq]
    refine keeps _ (unmoved.withParts fun part inside => ?_)
    unfold partInType
    split
    · exact unmoved.child inside
    · exact ih part inside (unmoved.child inside)

end Unmoved

end Node

namespace ReturnValue

variable {old : Node} {replace : Node → Node} {first : List Node} {last : List Node → List Node}

theorem unmoved_rebuilt (unmoved : old.Unmoved)
    (keeps : ∀ node : Node, node.Unmoved → (replace node).Unmoved)
    (before : ∀ stmt ∈ first, stmt.Unmoved) (behind : ∀ stmts, ∀ stmt ∈ last stmts, stmt.Unmoved) :
    (rebuilt old replace first last).Unmoved := by
  have kept := unmoved.mapInType keeps
  refine .ofParts rfl fun stmt isPart => ?_
  rcases List.mem_append.1 isPart with others | isLast
  · rcases List.mem_append.1 others with isFirst | isStmt
    · exact before stmt isFirst
    · exact kept.child (Node.mem_children_of_stmts isStmt)
  · exact behind _ stmt isLast

theorem unmoved_over {node value : Node} (shape : node.shape.resource? = none)
    (only : node.children = [value]) (bare : value.children = []) (plain : value.shape.resource? = none) :
    node.Unmoved := by
  refine .ofParts shape fun part isPart => ?_
  rw [only] at isPart
  rw [List.mem_singleton.1 isPart]
  exact .ofBare bare plain

theorem unmoved_body (notes : Notes) (ids : NewIds) (method : Node) {decl : MethodDecl Node}
    (unmoved : decl.body.Unmoved) (plan : ReturnPlan) :
    (body notes ids method decl plan).Unmoved := by
  cases plan with
  | result name type =>
    unfold body
    refine unmoved_rebuilt unmoved (fun node kept => ?_) ?_ fun stmts stmt isLast => ?_
    · split
      · exact .ofBare rfl rfl
      · split
        · exact unmoved_over rfl rfl rfl rfl
        · exact kept
    · exact List.forall_mem_singleton.2 (unmoved_over rfl rfl rfl rfl)
    · split at isLast
      · exact nomatch isLast
      · rw [List.mem_singleton.1 isLast]
        exact unmoved_over rfl rfl rfl rfl
  | default type =>
    unfold body
    refine unmoved_rebuilt unmoved (fun node kept => ?_) (List.forall_mem_nil _) fun stmts stmt isLast => ?_
    · split
      · exact unmoved_over rfl rfl rfl rfl
      · exact kept
    · rw [List.mem_singleton.1 isLast]
      exact unmoved_over rfl rfl rfl rfl
  | nothing copied =>
    unfold body
    refine unmoved_rebuilt unmoved (fun node kept => ?_) ?_ fun _ => List.forall_mem_nil _
    · split
      · exact .ofBare rfl rfl
      · split
        · exact .ofBare rfl rfl
        · exact kept
    · split
      · exact List.forall_mem_singleton.2 (unmoved_over rfl rfl rfl rfl)
      · exact List.forall_mem_nil _

end ReturnValue

namespace Draft

variable {draft : Draft}

theorem unmoved_returnValues (unmoved : draft.root.Unmoved) (localName : String) :
    (draft.returnValues localName).1.root.Unmoved := by
  refine unmoved.mapUp fun node kept => ?_
  unfold returnNode
  split
  · rename_i decl shape
    have parts : node.children = decl.params ++ [decl.body] := by rw [Node.children, shape]; rfl
    refine .ofParts rfl fun part isPart => ?_
    rcases List.mem_append.1 isPart with isParam | isBody
    · exact kept.child (parts ▸ List.mem_append_left _ isParam)
    · rw [List.mem_singleton.1 isBody]
      exact ReturnValue.unmoved_body _ _ _ (kept.child (Node.body_mem_children shape)) _
  · exact kept

theorem unmoved_typeCreations (unmoved : draft.root.Unmoved) (symbols : SymbolTable) :
    (draft.typeCreations symbols).1.root.Unmoved := by
  refine unmoved.mapUp fun node kept => ?_
  split
  · exact .ofBare rfl rfl
  · exact kept

theorem unmoved_markStatic (unmoved : draft.root.Unmoved) (static : Bool) :
    (draft.markStatic static).root.Unmoved := by
  unfold markStatic
  split
  · rename_i decl shape
    refine .ofParts rfl fun part isPart => unmoved.child ?_
    rw [Node.children, shape]
    exact isPart
  · exact unmoved

end Draft

inductive Draft.Finishing : Draft → Prop where
  | resolved {store : ScriptStore} {symbols : SymbolTable} {options : MigrationOptions}
      {cache : MemberMemo} {id : ScriptId} {draft after : Draft}
      (read : store.draft? id = some draft) (prepared : draft.Prepared)
      (found : (store.resolve symbols options cache id).store.draft? id = some after) :
      Finishing after
  | returnValues {draft : Draft} (localName : String) (finishing : draft.Finishing) :
      (draft.returnValues localName).1.Finishing
  | markStatic {draft : Draft} (static : Bool) (finishing : draft.Finishing) :
      (draft.markStatic static).Finishing
  | typeCreations {draft : Draft} (symbols : SymbolTable) (finishing : draft.Finishing) :
      (draft.typeCreations symbols).1.Finishing

theorem Draft.Finishing.unmoved {draft : Draft} (finishing : draft.Finishing) :
    draft.root.Unmoved := by
  induction finishing with
  | @resolved store symbols options cache id draft after read prepared found =>
    obtain ⟨script, listed, isRead⟩ := ScriptStore.exists_script read
    rw [(ScriptStore.resolve_eq symbols options cache listed isRead).1,
      ScriptStore.draft?_setDraft listed] at found
    have unreturned := prepared.resolveDraft_unreturned cache (Option.some.inj found)
    exact fun node inside => Shape.resource?_of_isSource (unreturned.source node inside)
  | returnValues localName _ ih => exact unmoved_returnValues ih localName
  | markStatic static _ ih => exact unmoved_markStatic ih static
  | typeCreations symbols _ ih => exact unmoved_typeCreations ih symbols

namespace LocalizedText

variable {symbols : SymbolTable} {options : MigrationOptions} {notes : Notes} {node : Node}
  {text : String}

def Translates (symbols : SymbolTable) (options : MigrationOptions) (notes : Notes) (node : Node)
    (text : String) : Prop :=
  ∃ parens callee arg print member owner, node.shape = .call parens callee [arg] ∧
    notes.binding? callee.id = some (.external print) ∧ arg.shape = .literal (.str text) ∧
    symbols.members[print]? = some member ∧ symbols.type? member.owner = some owner ∧
    options.isTranslator owner.name

theorem translated?_eq_some : translated? symbols options notes node = some text ↔
    Translates symbols options notes node text := by
  unfold translated?
  constructor
  · intro found
    split at found
    · rename_i parens callee arg shape
      split at found
      · rename_i print other bound isText
        obtain ⟨member, isMember, found⟩ := Option.bind_eq_some_iff.1 found
        obtain ⟨owner, isOwner, found⟩ := Option.bind_eq_some_iff.1 found
        split at found
        · rename_i translator
          obtain rfl := Option.some.inj found
          exact ⟨parens, callee, arg, print, member, owner, shape, bound, isText, isMember, isOwner,
            translator⟩
        · exact nomatch found
      · exact nomatch found
    · exact nomatch found
  · rintro ⟨parens, callee, arg, print, member, owner, shape, bound, isText, isMember, isOwner,
      translator⟩
    simp [shape, bound, isText, isMember, isOwner, translator]

theorem translated?_eq_none : translated? symbols options notes node = none ↔
    ∀ text, ¬ Translates symbols options notes node text := by
  simp only [Option.eq_none_iff_forall_ne_some, Ne, translated?_eq_some]

theorem translated?_withParts {g : Node → Node} (same : ∀ part ∈ node.children,
      (g part).id = part.id ∧ (g part).shape.literal? = part.shape.literal?) :
    translated? symbols options notes (node.withParts g) = translated? symbols options notes node := by
  rcases node with ⟨info, shape⟩
  cases shape with
  | call parens callee args =>
    rcases args with _ | ⟨arg, _ | ⟨second, rest⟩⟩
    · rfl
    · have isCallee := (same callee List.mem_cons_self).1
      have isArg := (same arg (List.mem_cons_of_mem _ List.mem_cons_self)).2
      have shape : ((Node.mk info (.call parens callee [arg])).withParts g).shape =
        .call parens (g callee) [g arg] := rfl
      refine Option.ext fun text => ?_
      rw [translated?_eq_some, translated?_eq_some]
      constructor
      · rintro ⟨_, _, _, print, member, owner, isCall, bound, isText, known⟩
        obtain ⟨rfl, rfl, isArgs⟩ := Shape.call.inj (shape.symm.trans isCall)
        obtain rfl := List.head_eq_of_cons_eq isArgs
        refine ⟨parens, callee, arg, print, member, owner, rfl, isCallee ▸ bound, ?_, known⟩
        rw [← Shape.literal?_eq_some, ← isArg, isText]
        rfl
      · rintro ⟨_, _, _, print, member, owner, isCall, bound, isText, known⟩
        obtain ⟨rfl, rfl, isArgs⟩ := Shape.call.inj isCall
        obtain rfl := List.head_eq_of_cons_eq isArgs
        refine ⟨parens, g callee, g arg, print, member, owner, shape, isCallee.symm ▸ bound, ?_, known⟩
        rw [← Shape.literal?_eq_some, isArg, isText]
        rfl
    · rfl
  | loop test body => cases test <;> rfl
  | _ => rfl

def movedTo? (symbols : SymbolTable) (options : MigrationOptions) (notes : Notes) (table : ResourceTable)
    (node : Node) : Option ResourceText :=
  (translated? symbols options notes node).bind table.find?

def reference (entry : ResourceText) : Shape Node := .resource entry.name entry.value

theorem locates_movedTo? (symbols : SymbolTable) (options : MigrationOptions) (notes : Notes)
    (table : ResourceTable) : Node.Locates (movedTo? symbols options notes table) reference := by
  refine ⟨fun g node same => ?_, fun node entry found => ⟨?_, rfl⟩⟩
  · rw [movedTo?, movedTo?, translated?_withParts same]
  · obtain ⟨text, translated, -⟩ := Option.bind_eq_some_iff.1 found
    obtain ⟨_, _, _, _, _, _, shape, _⟩ := translated?_eq_some.1 translated
    rw [shape]
    rfl

end LocalizedText

theorem Place.subset_around {around : List Node} {node : Node} {place : Place}
    (found : place ∈ Place.below around node) : around ⊆ place.around := by
  induction node using Node.induction generalizing around with
  | step node ih =>
    rw [below_eq] at found
    rcases List.mem_cons.1 found with rfl | later
    · exact fun _ => id
    · obtain ⟨part, inside, deeper⟩ := List.mem_flatMap.1 later
      exact fun outer listed => ih part inside deeper (List.mem_cons_of_mem _ listed)

/-- In a tree without references, those that are put in the place of nodes are left where no node around
is replaced as well. -/
theorem Node.Unmoved.refers_iff {found? : Node → Option ResourceText}
    (locates : Locates found? LocalizedText.reference) {root : Node} (unmoved : root.Unmoved)
    {around : List Node} (outermost : ∀ outer ∈ around, found? outer = none) (entry : ResourceText) :
    (∃ node ∈ (root.mapUp (reshapeAt found? LocalizedText.reference)).descendants,
        node.shape.resource? = some entry) ↔
      ∃ place ∈ Place.below around root, found? place.node = some entry ∧
        ∀ outer ∈ place.around, found? outer = none := by
  induction root using Node.induction generalizing around with
  | step root ih =>
    rw [Place.below_eq]
    cases finds : found? root with
    | some other =>
      rw [locates.mapUp_of_some finds, descendants_eq]
      -- the reference has no parts, and what is below the node is not outermost
      constructor
      · rintro ⟨node, inside, refers⟩
        obtain rfl := List.mem_singleton.1 inside
        exact ⟨⟨root, around⟩, List.mem_cons_self, finds.trans refers, outermost⟩
      · rintro ⟨place, listed, isEntry, alone⟩
        rcases List.mem_cons.1 listed with rfl | below
        · exact ⟨_, List.mem_cons_self, finds.symm.trans isEntry⟩
        · obtain ⟨part, _, deeper⟩ := List.mem_flatMap.1 below
          have outer := alone root (Place.subset_around deeper List.mem_cons_self)
          exact nomatch finds.symm.trans outer
    | none =>
      have inner : ∀ outer ∈ root :: around, found? outer = none :=
        List.forall_mem_cons.2 ⟨finds, outermost⟩
      rw [locates.mapUp_of_none finds, descendants_eq, children_withParts, List.flatMap_map]
      constructor
      · rintro ⟨node, inside, refers⟩
        rcases List.mem_cons.1 inside with rfl | below
        · exact nomatch ((Shape.resource?_mapParts root.shape _).trans unmoved.here).symm.trans refers
        · obtain ⟨part, isPart, deeper⟩ := List.mem_flatMap.1 below
          obtain ⟨place, listed, alone⟩ :=
            (ih part isPart (unmoved.child isPart) inner).1 ⟨node, deeper, refers⟩
          exact ⟨place, List.mem_cons_of_mem _ (List.mem_flatMap.2 ⟨part, isPart, listed⟩), alone⟩
      · rintro ⟨place, listed, isEntry, alone⟩
        rcases List.mem_cons.1 listed with rfl | below
        · exact nomatch finds.symm.trans isEntry
        · obtain ⟨part, isPart, deeper⟩ := List.mem_flatMap.1 below
          obtain ⟨node, inside, refers⟩ :=
            (ih part isPart (unmoved.child isPart) inner).2 ⟨place, deeper, isEntry, alone⟩
          exact ⟨node, List.mem_cons_of_mem _ (List.mem_flatMap.2 ⟨part, isPart, inside⟩), refers⟩

namespace Draft

open LocalizedText

variable (draft : Draft) (symbols : SymbolTable) (options : MigrationOptions)

def translations : List String := draft.nodes.filterMap (translated? symbols options draft.notes)

theorem mem_translations {text : String} : text ∈ draft.translations symbols options ↔
    ∃ node ∈ draft.root.descendants, Translates symbols options draft.notes node text := by
  simp only [translations, List.mem_filterMap, translated?_eq_some]
  rfl

theorem table_moveTexts : (draft.moveTexts symbols options).2 =
    (Interning.after options.resourceNameStart (draft.translations symbols options)).table := by
  rw [Interning.table_after, translations, List.foldl_filterMap]
  refine Eq.trans (List.foldl_filterMap ..) (congrArg (List.foldl · _ _) ?_)
  funext table node
  cases translated? symbols options draft.notes node <;> rfl

theorem root_moveTexts : (draft.moveTexts symbols options).1.root = draft.root.mapUp
    (Node.reshapeAt (movedTo? symbols options draft.notes (draft.moveTexts symbols options).2)
      reference) := by
  refine congrArg (draft.root.mapUp ·) (funext fun node => ?_)
  have unfolds : movedTo? symbols options draft.notes (draft.moveTexts symbols options).2 node = _ := rfl
  split
  · rename_i entry found
    rw [Node.reshapeAt_of_some (unfolds.trans found)]
    rfl
  · rename_i found
    rw [Node.reshapeAt_of_none (unfolds.trans found)]

theorem exists_moved_iff (text : String) :
    (∃ entry ∈ (draft.moveTexts symbols options).2.entries, entry.value = text) ↔
      ∃ node ∈ draft.root.descendants, Translates symbols options draft.notes node text := by
  rw [← ResourceTable.find?_isSome_iff, table_moveTexts, ← mem_translations]
  exact Interning.find?_isSome_iff

theorem distinct_moveTexts : (draft.moveTexts symbols options).2.Distinct := by
  rw [table_moveTexts]
  exact (Interning.inStep_after ..).toDistinct

variable {draft symbols options}

theorem movedTo?_eq_some {node : Node} {entry : ResourceText} :
    movedTo? symbols options draft.notes (draft.moveTexts symbols options).2 node = some entry ↔
      Translates symbols options draft.notes node entry.value ∧
        entry ∈ (draft.moveTexts symbols options).2.entries := by
  rw [movedTo?, Option.bind_eq_some_iff]
  constructor
  · rintro ⟨text, translated, found⟩
    obtain ⟨listed, rfl⟩ := ResourceTable.mem_of_find? found
    exact ⟨translated?_eq_some.1 translated, listed⟩
  · rintro ⟨translates, listed⟩
    exact ⟨entry.value, translated?_eq_some.2 translates,
      (draft.distinct_moveTexts symbols options).find?_value listed⟩

theorem movedTo?_eq_none {node : Node} (inside : node ∈ draft.root.descendants) :
    movedTo? symbols options draft.notes (draft.moveTexts symbols options).2 node = none ↔
      ∀ text, ¬ Translates symbols options draft.notes node text := by
  rw [← translated?_eq_none, movedTo?, Option.bind_eq_none_iff]
  refine ⟨fun unlisted => Option.eq_none_iff_forall_ne_some.2 fun text translated => ?_,
    fun none text translated => nomatch none.symm.trans translated⟩
  have listed := ResourceTable.find?_isSome_iff.2 ((draft.exists_moved_iff symbols options text).2
    ⟨node, inside, translated?_eq_some.1 translated⟩)
  rw [unlisted text translated] at listed
  exact nomatch listed

/-- An entry is referred to exactly if its text is translated outside all other calls that are
replaced, and nothing else is referred to. -/
theorem moveTexts_refers_iff (unmoved : draft.root.Unmoved) (symbols : SymbolTable)
    (options : MigrationOptions) (entry : ResourceText) :
    (∃ node ∈ (draft.moveTexts symbols options).1.root.descendants,
        node.shape = .resource entry.name entry.value) ↔
      entry ∈ (draft.moveTexts symbols options).2.entries ∧ ∃ place ∈ draft.root.places,
        Translates symbols options draft.notes place.node entry.value ∧
          ∀ outer ∈ place.around, ∀ text, ¬ Translates symbols options draft.notes outer text := by
  have outermost {place : Place} (listed : place ∈ draft.root.places) :
      (∀ outer ∈ place.around, movedTo? symbols options draft.notes
        (draft.moveTexts symbols options).2 outer = none) ↔
      ∀ outer ∈ place.around, ∀ text, ¬ Translates symbols options draft.notes outer text :=
    forall₂_congr fun outer around =>
      movedTo?_eq_none (Place.mem_of_around (Node.mem_places_iff.1 listed) around).1
  have refers := unmoved.refers_iff (locates_movedTo? symbols options draft.notes
    (draft.moveTexts symbols options).2) (List.forall_mem_nil _) entry
  rw [root_moveTexts]
  simp only [← Shape.resource?_eq_some, refers]
  constructor
  · rintro ⟨place, listed, found, alone⟩
    obtain ⟨translates, isEntry⟩ := movedTo?_eq_some.1 found
    exact ⟨isEntry, place, listed, translates, (outermost listed).1 alone⟩
  · rintro ⟨isEntry, place, listed, translates, alone⟩
    exact ⟨place, listed, movedTo?_eq_some.2 ⟨translates, isEntry⟩, (outermost listed).2 alone⟩

end Draft

namespace Draft.Finishing

open LocalizedText

variable {draft : Draft}

def translator : ExternalType where
  space := "Host"
  name := "Translator"
  assembly := { name := "Host.Runtime" }

def translate : SymbolMember where
  owner := translator.print
  name := "Translate"
  kind := .method
  result := .ofExternal translator
  arity := .exact 1

def giveTranslator : SymbolFunction where
  name := "Language"
  owner := translator
  result := .ofExternal translator
  arity := .none

def translatorTable : SymbolTable where
  types := Std.HashMap.ofList [(translator.print, translator)]
  members := Std.HashMap.ofList [(translate.print, translate)]
  functions := Std.HashMap.ofList [(giveTranslator.print, giveTranslator)]

def translatingText : String :=
  "Sub S()\n x = Language().Translate(\"Yes\").Translate(\"No\")\nEnd Sub\n"

theorem exists_translating : ∃ module resolved, parseModule translatingText "Test" = .ok module ∧
    ((ScriptStore.alone module).resolve translatorTable {} (.withCapacity 8) ⟨0⟩).store.draft? ⟨0⟩ =
      some resolved ∧ resolved.Finishing := by
  obtain ⟨module, parsed⟩ : ∃ module, parseModule translatingText "Test" = .ok module :=
    exists_module (by decide +kernel)
  have read : (ScriptStore.alone module).draft? ⟨0⟩ = some (Draft.ofModule module) := rfl
  obtain ⟨script, listed, isRead⟩ := ScriptStore.exists_script read
  have found := (ScriptStore.resolve_eq translatorTable {} (.withCapacity 8) listed isRead).1 ▸
    ScriptStore.draft?_setDraft listed
  exact ⟨module, _, parsed, found, .resolved read (.read parsed) found⟩

/-- The names of a table identify texts, whatever texts it is given, and once the texts of a script are
moved all references that are left in its tree are to entries of its table. -/
theorem moveTexts_identifies (finishing : draft.Finishing) (symbols : SymbolTable)
    (options : MigrationOptions) : (∀ start texts, Interning.Identifies start texts) ∧
    ∀ node ∈ (draft.moveTexts symbols options).1.root.descendants, ∀ name value,
      node.shape = .resource name value →
        ⟨name, value⟩ ∈ (draft.moveTexts symbols options).2.entries :=
  ⟨Interning.identifies, fun node inside _ _ shape =>
    ((moveTexts_refers_iff finishing.unmoved symbols options _).1 ⟨node, inside, shape⟩).1⟩

theorem moveTexts_identifies_translating : ∃ module resolved,
    parseModule translatingText "Test" = .ok module ∧
    ((ScriptStore.alone module).resolve translatorTable {} (.withCapacity 8) ⟨0⟩).store.draft? ⟨0⟩ =
      some resolved ∧
    Interning.Identifies "Str" ["Save changes?", "save, changes", "Save changes?"] ∧
    ∀ node ∈ (resolved.moveTexts translatorTable {}).1.root.descendants, ∀ name,
      node.shape = .resource name "No" →
        ⟨name, "No"⟩ ∈ (resolved.moveTexts translatorTable {}).2.entries := by
  obtain ⟨module, resolved, parsed, found, finishing⟩ := exists_translating
  obtain ⟨identifies, listed⟩ := moveTexts_identifies finishing translatorTable {}
  exact ⟨module, resolved, parsed, found, identifies _ _,
    fun node inside name => listed node inside name "No"⟩

/-- The entries are the texts that calls of the script have translated. One is referred to exactly if
its text is translated somewhere outside all other such calls, so all of them are where no such call
stands in another. -/
theorem moveTexts_refers (finishing : draft.Finishing) (symbols : SymbolTable)
    (options : MigrationOptions) :
    (∀ text, (∃ entry ∈ (draft.moveTexts symbols options).2.entries, entry.value = text) ↔
      ∃ node ∈ draft.root.descendants, Translates symbols options draft.notes node text) ∧
    (∀ entry ∈ (draft.moveTexts symbols options).2.entries,
      (∃ node ∈ (draft.moveTexts symbols options).1.root.descendants,
          node.shape = .resource entry.name entry.value) ↔
        ∃ place ∈ draft.root.places, Translates symbols options draft.notes place.node entry.value ∧
          ∀ outer ∈ place.around, ∀ text, ¬ Translates symbols options draft.notes outer text) ∧
    ((∀ place ∈ draft.root.places, ∀ text, Translates symbols options draft.notes place.node text →
        ∀ outer ∈ place.around, ∀ other, ¬ Translates symbols options draft.notes outer other) →
      ∀ entry ∈ (draft.moveTexts symbols options).2.entries,
        ∃ node ∈ (draft.moveTexts symbols options).1.root.descendants,
          node.shape = .resource entry.name entry.value) := by
  have texts := draft.exists_moved_iff symbols options
  have refers := moveTexts_refers_iff finishing.unmoved symbols options
  refine ⟨texts, fun entry listed => (refers entry).trans (and_iff_right listed),
    fun apart entry listed => (refers entry).2 ⟨listed, ?_⟩⟩
  obtain ⟨node, inside, translates⟩ := (texts entry.value).1 ⟨entry, listed, rfl⟩
  rw [← Place.map_node_below [] draft.root] at inside
  obtain ⟨place, among, rfl⟩ := List.mem_map.1 inside
  exact ⟨place, among, translates, apart place among _ translates⟩

theorem moveTexts_refers_translating : ∃ module resolved,
    parseModule translatingText "Test" = .ok module ∧
    ((ScriptStore.alone module).resolve translatorTable {} (.withCapacity 8) ⟨0⟩).store.draft? ⟨0⟩ =
      some resolved ∧
    ∀ entry ∈ (resolved.moveTexts translatorTable {}).2.entries,
      (∃ node ∈ (resolved.moveTexts translatorTable {}).1.root.descendants,
          node.shape = .resource entry.name entry.value) ↔
        ∃ place ∈ resolved.root.places,
          Translates translatorTable {} resolved.notes place.node entry.value ∧
          ∀ outer ∈ place.around, ∀ text, ¬ Translates translatorTable {} resolved.notes outer text := by
  obtain ⟨module, resolved, parsed, found, finishing⟩ := exists_translating
  exact ⟨module, resolved, parsed, found, (moveTexts_refers finishing translatorTable {}).2.1⟩

end Draft.Finishing

end ScriptMigration
