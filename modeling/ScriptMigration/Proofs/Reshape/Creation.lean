import ScriptMigration.Proofs.Reshape.ReturnMeaning
import ScriptMigration.Proofs.Resolution.Judged
import ScriptMigration.Proofs.Resolution.Naming

/-! Creations. A call that creates an object by the name of its class is recognised when the script is
resolved, from what is noted when it is visited, and again in the finished tree, where it becomes a
`New`. Both recognise the same calls, because giving back values in between changes no call, no literal
and no name of a function. -/
namespace ScriptMigration

namespace Shape

variable {α β : Type}

def literal? : Shape α → Option Literal
  | literal value => some value
  | _ => none

@[simp] theorem literal?_mapParts (shape : Shape α) (f : (a : α) → a ∈ shape.children → β) :
    (shape.mapParts f).literal? = shape.literal? := by
  cases shape with
  | loop test body => cases test <;> rfl
  | _ => rfl

theorem literal?_eq_some {shape : Shape α} {value : Literal} :
    shape.literal? = some value ↔ shape = .literal value := by
  cases shape <;> simp [literal?]

theorem literal?_of_isReference {shape : Shape α} (reference : shape.isReference) :
    shape.literal? = none := by
  cases shape <;> first | rfl | exact nomatch reference

end Shape

namespace Node

variable {τ : Type} {found? : Node → Option τ} {shape : τ → Shape Node} {node : Node} {found : τ}

def reshapeAt (found? : Node → Option τ) (shape : τ → Shape Node) (node : Node) : Node :=
  match found? node with
  | some found => node.withShape (shape found)
  | none => node

theorem reshapeAt_of_some (finds : found? node = some found) :
    node.reshapeAt found? shape = node.withShape (shape found) := by
  rw [reshapeAt, finds]

theorem reshapeAt_of_none (finds : found? node = none) : node.reshapeAt found? shape = node := by
  rw [reshapeAt, finds]

/-- What is found at a node depends on no more of its parts than their identities and literals, and no
literal is replaced or put in the place of something. -/
structure Locates (found? : Node → Option τ) (shape : τ → Shape Node) : Prop where
  parts : ∀ (g : Node → Node) (node : Node), (∀ part ∈ node.children,
    (g part).id = part.id ∧ (g part).shape.literal? = part.shape.literal?) →
      found? (node.withParts g) = found? node
  plain : ∀ (node : Node) (found : τ), found? node = some found →
    node.shape.literal? = none ∧ (shape found).literal? = none

namespace Locates

variable (locates : Locates found? shape)

theorem id_mapUp (found? : Node → Option τ) (shape : τ → Shape Node) (node : Node) :
    (node.mapUp (reshapeAt found? shape)).id = node.id := by
  rw [mapUp_eq, reshapeAt]
  split <;> rfl

include locates

theorem literal?_mapUp (node : Node) :
    (node.mapUp (reshapeAt found? shape)).shape.literal? = node.shape.literal? := by
  refine read_mapUp Shape.literal?_mapParts (fun node => ?_) node
  cases finds : found? node with
  | none => rw [reshapeAt_of_none finds]
  | some found =>
    obtain ⟨replaced, put⟩ := locates.plain node found finds
    rw [reshapeAt_of_some finds, replaced]
    exact put

/-- Its parts do not decide whether something is found at a node, so it does not matter that they come
first. -/
theorem rebuilt (node : Node) : found? (node.rebuilt (reshapeAt found? shape)) = found? node :=
  locates.parts _ node fun part _ => ⟨id_mapUp found? shape part, locates.literal?_mapUp part⟩

theorem mapUp_of_some (finds : found? node = some found) :
    node.mapUp (reshapeAt found? shape) = node.withShape (shape found) := by
  rw [mapUp_eq, reshapeAt_of_some ((locates.rebuilt node).trans finds)]
  rfl

theorem mapUp_of_none (finds : found? node = none) :
    node.mapUp (reshapeAt found? shape) = node.withParts (mapUp (reshapeAt found? shape)) := by
  rw [mapUp_eq, reshapeAt_of_none ((locates.rebuilt node).trans finds), Node.rebuilt]

end Locates

end Node

namespace Creation

variable {symbols : SymbolTable} {notes notes' : Notes} {function : SymbolFunction} {node : Node}
  {args : List Node} {type : ExternalType}

/-- The function that creates objects is called with the name of a class that the table knows. -/
def Names (symbols : SymbolTable) (function : SymbolFunction) (args : List Node)
    (type : ExternalType) : Prop :=
  sameName function.name functionName ∧ ∃ first rest className, args = first :: rest ∧
    first.shape = .literal (.str className) ∧ symbols.creatable? className = some type

def Creates (symbols : SymbolTable) (notes : Notes) (node : Node) (type : ExternalType) : Prop :=
  ∃ parens callee args print function, node.shape = .call parens callee args ∧
    notes.binding? callee.id = some (.function print) ∧
    symbols.functions[print]? = some function ∧ Names symbols function args type

theorem created?_eq_some :
    created? symbols function args = some type ↔ Names symbols function args type := by
  unfold created? Names
  constructor
  · intro found
    split at found
    · rename_i same
      split at found
      · rename_i className isFirst
        obtain ⟨first, isHead, shape⟩ := Option.map_eq_some_iff.1 isFirst
        obtain ⟨rest, rfl⟩ := List.head?_eq_some_iff.1 isHead
        exact ⟨same, first, rest, className, rfl, shape, found⟩
      · exact nomatch found
    · exact nomatch found
  · rintro ⟨same, first, rest, className, rfl, shape, known⟩
    rw [if_pos same, List.head?_cons, Option.map_some, shape]
    exact known

theorem nodeType?_eq_some :
    nodeType? symbols notes node = some type ↔ Creates symbols notes node type := by
  unfold nodeType?
  constructor
  · intro found
    split at found
    · rename_i parens callee args shape
      split at found
      · rename_i print bound
        obtain ⟨function, known, created⟩ := Option.bind_eq_some_iff.1 found
        exact ⟨parens, callee, args, print, function, shape, bound, known,
          created?_eq_some.1 created⟩
      · exact nomatch found
    · exact nomatch found
  · rintro ⟨parens, callee, args, print, function, shape, bound, known, names⟩
    simp only [shape, bound, known, Option.bind_some]
    exact created?_eq_some.2 names

theorem Creates.expression (creates : Creates symbols notes node type) :
    node.shape.family = .expression := by
  obtain ⟨_, _, _, _, _, shape, _⟩ := creates
  rw [shape]
  rfl

theorem Creates.literal? (creates : Creates symbols notes node type) :
    node.shape.literal? = none := by
  obtain ⟨_, _, _, _, _, shape, _⟩ := creates
  rw [shape]
  rfl

/-- Of the notes, only the functions that the parts of a call stand for matter. -/
theorem Creates.congr (creates : Creates symbols notes node type)
    (same : ∀ part ∈ node.children, ∀ print, notes.binding? part.id = some (.function print) →
      notes'.binding? part.id = some (.function print)) : Creates symbols notes' node type := by
  obtain ⟨parens, callee, args, print, function, shape, bound, known⟩ := creates
  refine ⟨parens, callee, args, print, function, shape, same callee ?_ print bound, known⟩
  rw [Node.children, shape]
  exact List.mem_cons_self

theorem created?_map {g : Node → Node}
    (same : ∀ arg ∈ args, (g arg).shape.literal? = arg.shape.literal?) :
    created? symbols function (args.map g) = created? symbols function args := by
  refine Option.ext fun type => ?_
  rw [created?_eq_some, created?_eq_some, Names, Names]
  cases args with
  | nil => rfl
  | cons first rest =>
    have isFirst := same first List.mem_cons_self
    refine and_congr_right fun _ => ⟨?_, ?_⟩
    · rintro ⟨_, _, className, isArgs, shape, known⟩
      obtain ⟨rfl, rfl⟩ := List.cons.inj isArgs
      rw [shape] at isFirst
      exact ⟨first, rest, className, rfl, Shape.literal?_eq_some.1 isFirst.symm, known⟩
    · rintro ⟨_, _, className, isArgs, shape, known⟩
      obtain ⟨rfl, rfl⟩ := List.cons.inj isArgs
      rw [shape] at isFirst
      exact ⟨g first, rest.map g, className, rfl, Shape.literal?_eq_some.1 isFirst, known⟩

theorem nodeType?_withParts {g : Node → Node} (same : ∀ part ∈ node.children,
      (g part).id = part.id ∧ (g part).shape.literal? = part.shape.literal?) :
    nodeType? symbols notes (node.withParts g) = nodeType? symbols notes node := by
  rcases node with ⟨info, shape⟩
  cases shape with
  | call parens callee args =>
    have isArg {arg : Node} (among : arg ∈ args) : arg ∈ (Node.mk info (.call parens callee
      args)).children := List.mem_cons_of_mem _ among
    have map (function : SymbolFunction) :
        created? symbols function (args.map g) = created? symbols function args :=
      created?_map fun arg among => (same arg (isArg among)).2
    have shape : ((Node.mk info (.call parens callee args)).withParts g).shape =
        .call parens (g callee) (args.map g) := by
      simp [Node.withParts, Node.shape, Shape.mapParts, Node.withShape]
    unfold nodeType?
    simp only [shape, (same callee List.mem_cons_self).1, map]
    rfl
  | loop test body => cases test <;> rfl
  | _ => rfl

theorem nodeType?_of_unlike (unlike : ∀ parens callee args, node.shape ≠ .call parens callee args) :
    nodeType? symbols notes node = none := by
  refine Option.eq_none_iff_forall_ne_some.2 fun _ found => ?_
  obtain ⟨_, _, _, _, _, shape, _⟩ := nodeType?_eq_some.1 found
  exact unlike _ _ _ shape

theorem nodeType?_of_family (differs : node.shape.family ≠ .expression) :
    nodeType? symbols notes node = none :=
  nodeType?_of_unlike fun _ _ _ shape => differs (by rw [shape]; rfl)

inductive Constructs (creates : NodeId → ExternalType → Prop) : Node → Node → Prop where
  | new {node callee : Node} {parens : Bool} {args : List Node} {type : ExternalType}
      (shape : node.shape = .call parens callee args) (known : creates node.id type) :
      Constructs creates node (node.withShape (.new type.fullName []))
  | kept {node : Node} {f : Node → Node} (other : ∀ type, ¬ creates node.id type)
      (parts : ∀ part ∈ node.children, Constructs creates part (f part)) :
      Constructs creates node (node.withParts f)

def construct (symbols : SymbolTable) (notes : Notes) (node : Node) : Node :=
  match nodeType? symbols notes node with
  | some type => node.withShape (.new type.fullName [])
  | none => node

theorem locates_nodeType? (symbols : SymbolTable) (notes : Notes) :
    Node.Locates (nodeType? symbols notes) fun type => .new type.fullName [] :=
  ⟨fun _ _ => nodeType?_withParts, fun _ _ found => ⟨(nodeType?_eq_some.1 found).literal?, rfl⟩⟩

theorem construct_eq (symbols : SymbolTable) (notes : Notes) : construct symbols notes =
    Node.reshapeAt (nodeType? symbols notes) fun type => .new type.fullName [] :=
  funext fun node => by
    unfold construct Node.reshapeAt
    cases nodeType? symbols notes node <;> rfl

theorem mapUp_of_creates (found : nodeType? symbols notes node = some type) :
    node.mapUp (construct symbols notes) = node.withShape (.new type.fullName []) := by
  rw [construct_eq]
  exact (locates_nodeType? symbols notes).mapUp_of_some found

theorem mapUp_of_none (found : nodeType? symbols notes node = none) :
    node.mapUp (construct symbols notes) = node.withParts (Node.mapUp (construct symbols notes)) := by
  rw [construct_eq]
  exact (locates_nodeType? symbols notes).mapUp_of_none found

theorem constructs_mapUp {creates : NodeId → ExternalType → Prop}
    (known : ∀ below ∈ node.descendants, ∀ type,
      creates below.id type ↔ Creates symbols notes below type) :
    Constructs creates node (node.mapUp (construct symbols notes)) := by
  induction node using Node.induction with
  | step node ih =>
    have here := known node node.mem_descendants_self
    cases found : nodeType? symbols notes node with
    | some type =>
      have isCreation := nodeType?_eq_some.1 found
      rw [mapUp_of_creates found]
      have ⟨_, _, _, _, _, shape, _⟩ := isCreation
      exact .new shape ((here type).2 isCreation)
    | none =>
      rw [mapUp_of_none found]
      refine .kept (fun type finds => ?_) fun part inside => ih part inside fun below lies =>
        known below (Node.mem_descendants_of_child inside lies)
      rw [nodeType?_eq_some.2 ((here type).1 finds)] at found
      exact nomatch found

theorem nodeType?_of_mem_mapUp {below : Node}
    (inside : below ∈ (node.mapUp (construct symbols notes)).descendants) :
    nodeType? symbols notes below = none := by
  induction node using Node.induction with
  | step node ih =>
    cases found : nodeType? symbols notes node with
    | some type =>
      rw [mapUp_of_creates found, Node.descendants_eq] at inside
      rw [List.mem_singleton.1 (show below ∈ [node.withShape (.new type.fullName [])] from inside)]
      rfl
    | none =>
      rw [mapUp_of_none found] at inside
      rcases Node.mem_descendants_cases inside with rfl | ⟨part, isPart, lies⟩
      · rw [construct_eq]
        exact ((locates_nodeType? symbols notes).rebuilt node).trans found
      · rw [Node.children_withParts] at isPart
        obtain ⟨old, among, rfl⟩ := List.mem_map.1 isPart
        exact ih old among lies

theorem descriptor?_describeTypes (found : List (NodeId × ExternalType)) (notes : Notes) (id : NodeId) :
    (found.foldl (fun notes (id, type) => notes.describe id (.ofExternal type)) notes).descriptor? id =
        notes.descriptor? id ∨
      ∃ type, (id, type) ∈ found ∧ (found.foldl (fun notes (id, type) =>
        notes.describe id (.ofExternal type)) notes).descriptor? id = some (.ofExternal type) := by
  induction found generalizing notes with
  | nil => exact .inl rfl
  | cons first rest ih =>
    rw [List.foldl_cons]
    rcases ih (notes.describe first.1 (.ofExternal first.2)) with old | ⟨type, later, same⟩
    · rw [old, Notes.descriptor?_describe]
      split
      · rename_i isFirst
        exact .inr ⟨first.2, isFirst ▸ List.mem_cons_self, rfl⟩
      · exact .inl rfl
    · exact .inr ⟨type, List.mem_cons_of_mem _ later, same⟩

theorem binding?_describeTypes (found : List (NodeId × ExternalType)) (notes : Notes) (id : NodeId) :
    (found.foldl (fun notes (id, type) => notes.describe id (.ofExternal type)) notes).binding? id =
      notes.binding? id := by
  induction found generalizing notes with
  | nil => rfl
  | cons first rest ih => exact ih _

end Creation

section Pass

open Creation

variable (draft : Draft) (symbols : SymbolTable)

theorem Draft.binding?_typeCreations (id : NodeId) :
    (draft.typeCreations symbols).1.notes.binding? id = draft.notes.binding? id :=
  binding?_describeTypes _ draft.notes id

theorem Draft.descriptor?_typeCreations (id : NodeId) :
    (draft.typeCreations symbols).1.notes.descriptor? id = draft.notes.descriptor? id ∨
      ∃ node ∈ draft.root.descendants, ∃ type, node.id = id ∧
        Creates symbols draft.notes node type ∧
        (draft.typeCreations symbols).1.notes.descriptor? id = some (.ofExternal type) := by
  refine (descriptor?_describeTypes _ draft.notes id).imp_right ?_
  rintro ⟨type, listed, noted⟩
  obtain ⟨node, inside, isEntry⟩ := List.mem_filterMap.1 listed
  obtain ⟨_, found, isPair⟩ := Option.map_eq_some_iff.1 isEntry
  obtain ⟨rfl, rfl⟩ := Prod.mk.inj isPair
  exact ⟨node, inside, _, rfl, nodeType?_eq_some.1 found, noted⟩

end Pass

def Surroundings.FindsCreation (around : Surroundings) (before : ResolutionState) (id : NodeId)
    (type : ExternalType) : Prop :=
  ∃ place moment, around.VisitedAt { before with changed := false } place moment ∧
    place.node.id = id ∧ Creation.Creates around.symbols moment.notes place.node type

namespace Surroundings

open Creation

variable {around : Surroundings} {draft resolved : Draft} {before moment : ResolutionState}
  {place : Place} {node : Node} {typed : Judgement} {type : ExternalType}

theorem Judges.creates (judges : around.Judges moment place typed)
    (creates : Creates around.symbols moment.notes place.node type) :
    typed.descriptor = some (.ofExternal type) := by
  obtain ⟨parens, callee, args, print, function, shape, bound, known, names⟩ := creates
  cases judges with
  | declared needed =>
    simp [declaresAt, Node.nameText?, shape, Shape.nameText?] at needed
  | typed =>
    unfold Surroundings.typed
    simp only [shape]
    unfold callTyped
    simp only [bound, known]
    unfold functionCallTyped
    rw [created?_eq_some.2 names]

section Concluded

variable (concludes : around.Concludes draft before resolved)

include concludes

theorem Concludes.judged_of_finds {id : NodeId} (finds : around.FindsCreation before id type) :
    ∃ node ∈ resolved.root.descendants, node.id = id ∧ ∃ place moment typed,
      around.JudgedIn draft.root.roleOf { before with changed := false }
        (around.sweep true before).notes node place moment typed ∧
      Creates around.symbols moment.notes node type := by
  obtain ⟨place, moment, visited, same, creates⟩ := finds
  have lies : place.node ∈ before.root.descendants := by
    obtain ⟨early, late, split, _⟩ := visited
    have listed : place ∈ before.root.placesUp := split ▸ List.mem_append_right _ List.mem_cons_self
    exact Node.node_mem_of_mem_placesUp listed
  obtain ⟨typed, judged⟩ := concludes.judges_at visited creates.expression
  exact ⟨place.node, (concludes.mem_of_expression creates.expression).2 lies, same, place, moment,
    typed, judged, creates⟩

variable (distinct : resolved.root.Distinct) (inside : node ∈ resolved.root.descendants)

include distinct inside

/-- A call is found to create an object in the last sweep exactly if it does by the notes that are left
in the end. -/
theorem Concludes.findsCreation_iff :
    around.FindsCreation before node.id type ↔ Creates around.symbols resolved.notes node type := by
  constructor
  · intro finds
    obtain ⟨other, among, same, place, moment, typed, judged, creates⟩ :=
      concludes.judged_of_finds finds
    obtain rfl := distinct.eq_of_id_eq among inside same
    refine creates.congr fun part isPart print bound => ?_
    rw [concludes.binding?_eq, judged.binding part isPart, bound]
  · intro creates
    obtain ⟨place, moment, typed, judged⟩ := concludes.judges inside creates.expression
    refine ⟨place, moment, judged.visited, by rw [judged.same], judged.same ▸ creates.congr ?_⟩
    intro part isPart print bound
    rw [← judged.binding part isPart, ← concludes.binding?_eq, bound]

theorem Concludes.descriptor_of_finds (finds : around.FindsCreation before node.id type) :
    resolved.notes.descriptor? node.id == some (.ofExternal type) := by
  obtain ⟨other, among, isOther, place, moment, typed, judged, creates⟩ :=
    concludes.judged_of_finds finds
  obtain rfl : node = other := distinct.eq_of_id_eq inside among isOther.symm
  have same := judged.noted.descriptor _ (judged.judges.creates (judged.same ▸ creates))
  obtain ⟨desc, noted, isType⟩ := Descriptor.exists_type_of_beq same
  obtain ⟨static, knows, underway, keeps, last, lastKeeps, rfl⟩ := concludes
  have lies := (mem_settle_of_expression lastKeeps.houses.layers knows creates.expression).1 inside
  rw [(notes_settle_old draft knows (last.fits.tree.small node lies)).1, noted]
  exact isType

end Concluded

end Surroundings

namespace Draft

open ReturnValue Creation

variable {draft : Draft} {localName : String} {node old new : Node} {setting : Setting}
  {symbols : SymbolTable}

def StandsForValue (draft : Draft) (node : Node) : Prop :=
  (∃ method, isOwnName draft.notes method node) ∨ isAssignedValue node

/-- What is noted of a node stays when values are given back, unless it stands for the value of its
procedure: then it stands for the new variable afterwards. -/
theorem Grounded.agree_or_bound (grounded : draft.Grounded) (localName : String)
    (inside : node ∈ draft.root.descendants) :
    draft.notes.Agree (draft.returnValues localName).1.notes node.id ∨ draft.StandsForValue node ∧
      ∃ carrier, (draft.returnValues localName).1.notes.binding? node.id =
        some (.localVar carrier) := by
  by_cases elsewhere : ∀ method ∈ draft.root.descendants, ∀ decl, method.shape = .method decl →
      ¬ draft.Belongs method.id decl.body node.id
  · exact .inl (agree_elsewhere localName elsewhere)
  push Not at elsewhere
  obtain ⟨method, isMethod, decl, shape, belongs⟩ := elsewhere
  obtain ⟨below, lies, same⟩ :=
    grounded.lies_of_belongs isMethod shape belongs (grounded.small node inside)
  have inTree {other : Node} (deeper : other ∈ decl.body.descendants) :
      other ∈ draft.root.descendants := by
    obtain ⟨_, stands, _⟩ := grounded.layers.stands_in_body isMethod shape deeper
    exact stands.mem
  obtain rfl := grounded.distinct.eq_of_id_eq (inTree lies) inside same.symm
  by_cases listed : below.id ∈ boundBy draft.notes (newIds draft method.id) method.id decl
      (plan draft.notes localName method decl)
  · refine .inr ⟨?_, _, (grounded.bound_iff isMethod shape localName belongs).2 listed⟩
    have isNamed {p : Node → Bool} (among : below.id ∈
        (decl.body.ownDescendants.filter p).map Node.id) : p below := by
      obtain ⟨other, isOther, same⟩ := List.mem_map.1 among
      have deeper := Node.mem_ownDescendants (List.mem_of_mem_filter isOther)
      rw [← grounded.distinct.eq_of_id_eq (inTree deeper) inside same]
      exact List.of_mem_filter isOther
    unfold boundBy at listed
    split at listed
    · rcases List.mem_append.1 listed with isName | isValue
      · exact .inl ⟨method.id, isNamed isName⟩
      · exact absurd isValue (grounded.not_mem_valuesOf isMethod shape lies)
    · exact nomatch listed
    · exact nomatch listed
    · exact .inr (isNamed listed)
  · exact .inl (grounded.agree_of_unbound isMethod shape localName lies listed)

/-- An expression is the same over its parts when values are given back, unless it stands for the value
of its procedure: then it is a name afterwards. -/
theorem ReturnCarried.expression_cases (layers : draft.root.InLayers)
    (owns : ∀ node ∈ draft.root.descendants, ∀ method, isOwnName draft.notes method node →
      node.shape.family = .expression) (carried : draft.ReturnCarried localName setting old new)
    (expression : old.shape.family = .expression) :
    (∃ g, new = old.withParts g ∧
      ∀ part ∈ old.children, draft.ReturnCarried localName (old.setting setting) part (g part)) ∨
    draft.StandsForValue old ∧ ∃ text, new.shape = .name text := by
  obtain ⟨stands, rfl | ⟨method, replace, inMethod, inner, retains, rfl | ⟨isBlock, _⟩⟩⟩ := carried
  · refine .inl ⟨Node.mapUp (draft.returnNode localName), ?_,
      fun part isPart => ⟨stands.part isPart, .inl rfl⟩⟩
    rw [Node.mapUp_eq, Node.rebuilt, returnNode_of_family (by rw [Node.family_withParts, expression]; decide)]
  · have parts : ∀ part ∈ old.children, draft.ReturnCarried localName (old.setting setting) part
        (part.mapInType replace) := fun part isPart =>
      ⟨stands.part isPart, .inr ⟨method, replace,
        (Node.method_setting_of_inner inner setting).trans inMethod,
        Shape.Family.isInner_of_holds inner ((layers old stands.mem).parts part isPart), retains,
        .inl rfl⟩⟩
    have same := Node.mapInType_of_inner (layers.below stands.mem) inner replace
    rcases retains (old.withParts (Node.mapInType replace)) (fun own => by
      rw [Node.family_withParts]
      exact owns old stands.mem method own) with kept | ⟨shape, changed, _, _, becomes, _⟩
    · exact .inl ⟨_, same.trans kept, parts⟩
    · obtain ⟨value, text, rfl⟩ := becomes (by rw [Node.family_withParts, expression])
      refine .inr ⟨value.imp (fun own => ⟨method, own⟩) fun isValue => ?_, text, ?_⟩
      · rwa [isAssignedValue_withParts] at isValue
      · rw [same, changed]
        rfl
  · rw [expression] at isBlock
    cases isBlock

section Returned

variable (grounded : draft.Grounded) (named : draft.root.Named draft.notes)

include named in
/-- What stands for the value of its procedure is no literal, no call and no function. -/
theorem StandsForValue.unlike (inside : node ∈ draft.root.descendants)
    (value : draft.StandsForValue node) : node.shape.literal? = none ∧
      (∀ parens callee args, node.shape ≠ .call parens callee args) ∧
      ∀ print, draft.notes.binding? node.id ≠ some (.function print) := by
  obtain ⟨setting, stands⟩ := Node.exists_stands inside
  rcases value with ⟨method, own⟩ | isValue
  · have bound := eq_of_beq own
    have reference := (named stands bound).isReference
    refine ⟨Shape.literal?_of_isReference reference, fun _ _ _ shape => ?_, fun print isFunction => ?_⟩
    · rw [shape] at reference
      exact nomatch reference
    · exact nomatch bound.symm.trans isFunction
  · unfold isAssignedValue at isValue
    split at isValue
    · rename_i shape
      refine ⟨by rw [shape]; rfl, fun _ _ _ => by rw [shape]; nofun, fun print isFunction => ?_⟩
      have reference := (named stands isFunction).isReference
      rw [shape] at reference
      exact nomatch reference
    · exact nomatch isValue

include grounded named

theorem Grounded.function_iff (localName : String) (inside : node ∈ draft.root.descendants)
    (print : Fingerprint) :
    (draft.returnValues localName).1.notes.binding? node.id = some (.function print) ↔
      draft.notes.binding? node.id = some (.function print) := by
  rcases grounded.agree_or_bound localName inside with agree | ⟨value, carrier, bound⟩
  · rw [agree.binding]
  · rw [bound]
    exact iff_of_false nofun ((value.unlike named inside).2.2 print)

theorem Grounded.literal?_carried (carried : draft.ReturnCarried localName setting old new)
    (expression : old.shape.family = .expression) : new.shape.literal? = old.shape.literal? := by
  have inside := carried.1.mem
  rcases carried.expression_cases grounded.layers grounded.owns expression with
    ⟨g, rfl, -⟩ | ⟨value, text, isName⟩
  · exact Shape.literal?_mapParts ..
  · rw [isName, (value.unlike named inside).1]
    rfl

theorem Grounded.nodeType?_carried (carried : draft.ReturnCarried localName setting old new) :
    nodeType? symbols (draft.returnValues localName).1.notes new =
      nodeType? symbols draft.notes old := by
  have carries := returnCarries grounded.layers grounded.owns localName
  have stands := carried.1
  have inside := stands.mem
  by_cases expression : old.shape.family = .expression
  · rcases carried.expression_cases grounded.layers grounded.owns expression with
      ⟨g, rfl, parts⟩ | ⟨value, text, isName⟩
    · rw [nodeType?_withParts fun part isPart => ⟨carries.id (parts part isPart),
        grounded.literal?_carried named (parts part isPart)
          ((grounded.layers.below inside).expression_below expression part
            (Node.child_mem_descendants isPart))⟩]
      have same {part : Node} (isPart : part ∈ old.children) (print : Fingerprint) :=
        grounded.function_iff named localName (stands.part isPart).mem print
      refine Option.ext fun type => ?_
      rw [nodeType?_eq_some, nodeType?_eq_some]
      exact ⟨fun creates => creates.congr fun part isPart print => (same isPart print).1,
        fun creates => creates.congr fun part isPart print => (same isPart print).2⟩
    · rw [nodeType?_of_unlike (value.unlike named inside).2.1,
        nodeType?_of_unlike (by rw [isName]; nofun)]
  · rw [nodeType?_of_family expression,
      nodeType?_of_family (by rwa [carries.family carried])]

/-- Where a call that creates an object comes from: it was there before values were given back. What is
made for a procedure creates none. -/
theorem Grounded.creates_cases (symbols : SymbolTable) (localName : String)
    (inside : node ∈ (draft.returnValues localName).1.root.descendants) :
    (∃ old ∈ draft.root.descendants, old.id = node.id ∧ ∀ type,
      Creates symbols (draft.returnValues localName).1.notes node type ↔
        Creates symbols draft.notes old type) ∨
    draft.fresh ≤ node.id.index ∧
      ∀ type, ¬ Creates symbols (draft.returnValues localName).1.notes node type := by
  have carries := returnCarries grounded.layers grounded.owns localName
  obtain ⟨setting, stands⟩ := Node.exists_stands inside
  rcases carries.origin ⟨.root, .inl rfl⟩ stands with ⟨old, above, carried⟩ | ⟨method, made⟩
  · refine .inl ⟨old, above.mem, (carries.id carried).symm, fun type => ?_⟩
    rw [← nodeType?_eq_some, ← nodeType?_eq_some, grounded.nodeType?_carried named carried]
  · refine .inr ⟨(grounded.toTidy.newFor_large made).1, fun type creates => ?_⟩
    have bare := made.bare creates.expression
    obtain ⟨_, _, _, _, _, shape, _⟩ := creates
    rw [Node.children, shape] at bare
    cases bare

end Returned

end Draft

/-- The calls of a tree that create an object are those that were found to, and they become a `New`;
`found` tells which were found, and `created` is the tree afterwards. -/
structure Creation.Agrees (symbols : SymbolTable) (found : NodeId → ExternalType → Prop)
    (returned created : Draft) : Prop where
  recognises : ∀ node ∈ returned.root.descendants, ∀ type,
    found node.id type ↔ Creates symbols returned.notes node type
  typed : ∀ node ∈ returned.root.descendants, ∀ type, found node.id type →
    returned.notes.descriptor? node.id == some (.ofExternal type)
  constructs : Constructs found returned.root created.root
  keeps : ∀ node ∈ returned.root.descendants,
    created.notes.descriptor? node.id == returned.notes.descriptor? node.id
  complete : ∀ node ∈ created.root.descendants, ∀ type, ¬ Creates symbols created.notes node type

open Creation in
theorem Creation.agrees_typeCreations {symbols : SymbolTable} {draft : Draft}
    {found : NodeId → ExternalType → Prop} (recognises : ∀ node ∈ draft.root.descendants, ∀ type,
      found node.id type ↔ Creates symbols draft.notes node type)
    (typed : ∀ node ∈ draft.root.descendants, ∀ type, found node.id type →
      draft.notes.descriptor? node.id == some (.ofExternal type)) :
    Agrees symbols found draft (draft.typeCreations symbols).1 := by
  refine ⟨recognises, typed, constructs_mapUp recognises, fun node inside => ?_,
    fun node inside type creates => ?_⟩
  · rcases draft.descriptor?_typeCreations symbols node.id with same | ⟨other, among, type, same,
      creates, noted⟩
    · rw [same]
      exact Descriptor.noted_refl _
    · rw [noted, ← same]
      exact Descriptor.noted_symm (typed other among type ((recognises other among type).2 creates))
  · have left := nodeType?_of_mem_mapUp inside
    rw [nodeType?_eq_some.2 (creates.congr fun part _ print bound => ?_)] at left
    · exact nomatch left
    · rwa [Draft.binding?_typeCreations] at bound

section Resolve

open Creation

variable {store : ScriptStore} {id : ScriptId} {script : Script} {draft : Draft}

/-- With any symbol table, the calls of a resolved script that become a `New` are those that the last
sweep found to create an object, and no node is described otherwise then. -/
theorem ScriptStore.resolve_creates (symbols : SymbolTable) (options : MigrationOptions)
    (cache : MemberMemo) (localName : String) (listed : store.get? id = some script)
    (read : script.draft? = some draft) (prepared : draft.Prepared) :
    ∃ resolved, (store.resolve symbols options cache id).store.draft? id = some resolved ∧
      ∀ around, around = Surroundings.forScript symbols options store id script draft →
        Agrees symbols (around.FindsCreation (around.beforeLast draft cache))
          (resolved.returnValues localName).1
          ((resolved.returnValues localName).1.typeCreations symbols).1 := by
  obtain ⟨resolved, found, concludes⟩ :=
    resolve_concludes symbols options cache listed read prepared
  have isResolved := found
  rw [(resolve_eq symbols options cache listed read).1, draft?_setDraft listed] at isResolved
  have grounded := (prepared.resolveDraft_grounded cache (Option.some.inj isResolved)).1
  have named := prepared.resolveDraft_named cache (Option.some.inj isResolved)
  refine ⟨resolved, found, fun around isAround => ?_⟩
  have concluded := concludes around isAround
  have isTable : around.symbols = symbols := by rw [isAround]; rfl
  refine agrees_typeCreations (fun node inside type => ?_) fun node inside type finds => ?_
  · rcases grounded.creates_cases named symbols localName inside with
      ⟨old, among, same, creates⟩ | ⟨large, creates⟩
    · rw [creates, ← same, ← isTable]
      exact concluded.findsCreation_iff grounded.distinct among
    · refine iff_of_false (fun finds => ?_) (creates type)
      obtain ⟨other, among, same, _⟩ := concluded.judged_of_finds finds
      exact absurd (same ▸ grounded.small other among) (Nat.not_lt_of_le large)
  · obtain ⟨old, among, same, _⟩ := concluded.judged_of_finds finds
    rw [← same] at finds ⊢
    rcases grounded.agree_or_bound localName among with agree | ⟨value, _⟩
    · rw [agree.descriptor]
      exact concluded.descriptor_of_finds grounded.distinct among finds
    · obtain ⟨_, _, _, _, _, shape, _⟩ :=
        (concluded.findsCreation_iff grounded.distinct among).1 finds
      exact absurd shape ((value.unlike named among).2.1 _ _ _)

def dictionary : ExternalType where
  space := "Scripting"
  name := "Dictionary"
  assembly := { name := "Interop.Scripting" }

def createObject : SymbolFunction where
  name := "CreateObject"
  owner := dictionary
  result := .object
  arity := .range 1 2

def dictionaryTable : SymbolTable where
  types := Std.HashMap.ofList [(dictionary.print, dictionary)]
  functions := Std.HashMap.ofList [(createObject.print, createObject)]
  classNames := Std.HashMap.ofList [(.of "Scripting.Dictionary", dictionary.print)]

def dictionaryText : String := "Sub S()\n Set d = CreateObject(\"Scripting.Dictionary\")\nEnd Sub\n"

theorem ScriptStore.resolve_creates_dictionary : ∃ module resolved,
    parseModule dictionaryText "Test" = .ok module ∧
    ((ScriptStore.alone module).resolve dictionaryTable {} (.withCapacity 8) ⟨0⟩).store.draft? ⟨0⟩ =
      some resolved ∧
    ∀ node ∈ (resolved.returnValues "result").1.root.descendants, ∀ parens callee first rest,
      node.shape = .call parens callee (first :: rest) →
      first.shape = .literal (.str "Scripting.Dictionary") →
      (resolved.returnValues "result").1.notes.binding? callee.id =
        some (.function createObject.print) →
      (resolved.returnValues "result").1.notes.descriptor? node.id ==
        some (.ofExternal dictionary) := by
  obtain ⟨module, parsed⟩ : ∃ module, parseModule dictionaryText "Test" = .ok module :=
    exists_module (by decide +kernel)
  have prepared : (Draft.ofModule module).Prepared := .read parsed
  obtain ⟨resolved, found, creates⟩ := ScriptStore.resolve_creates dictionaryTable {}
    (.withCapacity 8) "result" (show (ScriptStore.alone module).get? ⟨0⟩ = some _ from rfl) rfl
    prepared
  have agrees := creates _ rfl
  refine ⟨module, resolved, parsed, found, fun node inside parens callee first rest shape isText
    bound => agrees.typed node inside dictionary ((agrees.recognises node inside dictionary).2
      ⟨parens, callee, _, _, createObject, shape, bound, ?_, by decide +kernel, first, rest, _, rfl,
        isText, ?_⟩)⟩
  · simp [dictionaryTable]
  · simp [SymbolTable.creatable?, SymbolTable.type?, dictionaryTable]

end Resolve

end ScriptMigration
