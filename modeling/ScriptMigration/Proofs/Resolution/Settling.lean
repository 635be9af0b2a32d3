import ScriptMigration.Proofs.Resolution.LastSweep
import ScriptMigration.Proofs.Resolution.Start

/-! What is done after the last sweep. No deferred descriptor stays, every declaration has a type, and
the fields that types owe come with one. -/
namespace ScriptMigration

def Descriptor.isConcrete : Descriptor → Bool
  | .type _ | .form => true
  | _ => false

theorem Shape.isDeclaration_eq {α : Type} (shape : Shape α) : shape.isDeclaration =
    [Family.type, .field, .method, .property, .param, .localVar].contains shape.family := by
  cases shape <;> rfl

theorem Shape.isDeclaration_congr {α β : Type} {shape : Shape α} {shape' : Shape β}
    (same : shape.family = shape'.family) : shape.isDeclaration = shape'.isDeclaration := by
  rw [isDeclaration_eq, isDeclaration_eq, same]

namespace Surroundings

variable {around : Surroundings} {notes : Notes}

theorem concrete_known (isDeclaration : Bool) (descriptor : Descriptor) :
    (around.concrete notes isDeclaration descriptor).isDeferred = false := by
  cases descriptor with
  | deferred decl =>
    unfold concrete
    dsimp only
    split
    · rfl
    · rfl
    · rename_i found leads
      exact Descriptor.isDeferred_of_follow leads
  | null | missing => cases isDeclaration <;> rfl
  | type | form => rfl

theorem concrete_isConcrete {descriptor : Descriptor} (known : descriptor.isDeferred = false) :
    (around.concrete notes true descriptor).isConcrete := by
  cases descriptor with
  | deferred decl => simp [Descriptor.isDeferred] at known
  | _ => rfl

theorem descriptor?_withoutDeferred (nodes : Std.HashMap NodeId Node) (id : NodeId) :
    (around.withoutDeferred nodes notes).descriptor? id = (notes.descriptor? id).map
      (around.concrete notes (nodes[id]?.any (·.shape.isDeclaration))) := by
  simp [withoutDeferred, Notes.descriptor?, Std.HashMap.getElem?_map]

end Surroundings

theorem Obligation.apply_adds (obligations : Std.HashSet Obligation) :
    Node.Adds (Obligation.apply obligations) fun _ => [] := by
  refine .ofMarks fun node => ?_
  rcases node with ⟨info, shape⟩
  cases shape with
  | field | method | property =>
    unfold apply
    dsimp only [Node.shape]
    split <;> exact ⟨rfl, rfl, rfl⟩
  | _ => exact ⟨rfl, rfl, rfl⟩

theorem Obligation.apply_of_expression (obligations : Std.HashSet Obligation) {node : Node}
    (family : node.shape.family = .expression) : apply obligations node = node := by
  rcases node with ⟨info, shape⟩
  cases shape with
  | type | field | method | property => exact nomatch family
  | _ => rfl

theorem Node.withVisibility_adds : Node.Adds Node.withVisibility fun _ => [] := by
  refine .ofMarks fun node => ?_
  rcases node with ⟨info, shape⟩
  cases shape with
  | type | field | method | property =>
    unfold withVisibility
    dsimp only [Node.shape]
    split <;> exact ⟨rfl, rfl, rfl⟩
  | _ => exact ⟨rfl, rfl, rfl⟩

theorem Node.withVisibility_of_expression {node : Node}
    (family : node.shape.family = .expression) : node.withVisibility = node := by
  rcases node with ⟨info, shape⟩
  cases shape with
  | type | field | method | property => exact nomatch family
  | _ => rfl

namespace Surroundings

variable {around : Surroundings} {draft : Draft}

def paidFields (around : Surroundings) (draft : Draft) (node : Node) : List Node :=
  (around.newFields draft node).map fun (id, field) =>
    Node.made id node.line (.field {
      name := field.name, visibility := .owner, origin := field.origin
      marks := { synthesized := true } })

theorem payFields_adds : Node.Adds (around.payFields draft) (around.paidFields draft) := by
  refine ⟨fun node => ?_, fun node => ?_, fun node => ?_, fun node leaf found => ?_⟩
  · rcases node with ⟨info, shape⟩
    cases shape <;> rfl
  · rcases node with ⟨info, shape⟩
    cases shape <;> rfl
  · rcases node with ⟨info, shape⟩
    cases shape <;> rfl
  · obtain ⟨entry, _, rfl⟩ := List.mem_map.1 found
    rfl

theorem payFields_of_family {node : Node} (differs : node.shape.family ≠ .type) :
    around.payFields draft node = node := by
  rcases node with ⟨info, shape⟩
  cases shape with
  | type => exact absurd rfl differs
  | _ => rfl

theorem origin_payFields (member : Node) :
    ((member.mapUp (around.payFields draft)).varDecl?).map (·.origin) =
      member.varDecl?.map (·.origin) := by
  by_cases isType : member.shape.family = .type
  · have mapped : (member.mapUp (around.payFields draft)).shape.family = .type := by
      rw [payFields_adds.family_mapUp, isType]
    have none {node : Node} (family : node.shape.family = .type) : node.varDecl? = none := by
      unfold Node.varDecl?
      cases shape : node.shape with
      | field | localVar => simp [shape, Shape.family] at family
      | _ => rfl
    rw [none mapped, none isType]
  · have shape : (member.mapUp (around.payFields draft)).shape =
        member.shape.mapParts fun part _ => part.mapUp (around.payFields draft) := by
      rw [Node.mapUp_eq, payFields_of_family (by rwa [Node.family_rebuilt])]
      rfl
    unfold Node.varDecl?
    rw [shape]
    cases member.shape with
    | loop test body => cases test <;> rfl
    | _ => rfl

theorem newFields_rebuilt (node : Node) :
    around.newFields draft (node.rebuilt (around.payFields draft)) =
      around.newFields draft node := by
  unfold newFields Node.typeDecl?
  rcases node with ⟨info, shape⟩
  cases shape with
  | type decl =>
    have sameOrigin (member : Node) (origin : Origin) :
        ((member.mapUp (around.payFields draft)).varDecl?).any (·.origin == origin) =
          member.varDecl?.any (·.origin == origin) := by
      have any {decl : Option (VarDecl Node)} : decl.any (·.origin == origin) =
          (decl.map (·.origin)).any (· == origin) := by cases decl <;> rfl
      rw [any, any, origin_payFields]
    have sameFields : around.missingFields
        ((Node.mk info (.type decl)).rebuilt (around.payFields draft))
        { decl with members := decl.members.map (Node.mapUp (around.payFields draft)) } =
        around.missingFields (.mk info (.type decl)) decl := by
      unfold missingFields
      simp only [List.any_map, Function.comp_def, sameOrigin, Node.id_rebuilt]
    have rebuilt : ((Node.mk info (.type decl)).rebuilt (around.payFields draft)).shape =
        .type { decl with members := decl.members.map (Node.mapUp (around.payFields draft)) } :=
      Node.shape_rebuilt_of_type rfl _
    simp only [rebuilt, sameFields]
    rfl
  | loop test body => cases test <;> rfl
  | _ => rfl

/-- The types around the types of a script are declared there. -/
def KnowsOuter (around : Surroundings) : Prop :=
  ∀ type owner : NodeId, around.types[type]?.bind (·.outer) = some owner →
    ((around.node? ⟨around.script, owner⟩).bind Node.typeDecl?).isSome

theorem owedFields_concrete (knows : around.KnowsOuter) {marks : TypeMarks} {type : NodeId}
    {field : OwedField}
    (listed : field ∈ around.owedFields marks (around.types[type]?.bind (·.outer))) :
    field.type.isConcrete := by
  unfold owedFields at listed
  dsimp only at listed
  rcases List.mem_append.1 listed with earlier | missing
  · rcases List.mem_append.1 earlier with outer | form
    · split at outer
      · rename_i owner _ isOwner
        obtain rfl := List.mem_singleton.1 outer
        obtain ⟨decl, isDecl⟩ := Option.isSome_iff_exists.1 (knows type owner isOwner)
        simp [declDescriptor?, sees, isDecl, Descriptor.ofScript, Descriptor.isConcrete]
      · simp at outer
    · split at form
      · obtain rfl := List.mem_singleton.1 form
        dsimp only
        cases around.symbols.formType <;> rfl
      · simp at form
  · split at missing
    · obtain rfl := List.mem_singleton.1 missing
      rfl
    · simp at missing

theorem newFields_cases (knows : around.KnowsOuter) {type : Node} {entry : NodeId × OwedField}
    (listed : entry ∈ around.newFields draft type) :
    type.shape.isType ∧ draft.fresh ≤ entry.1.index ∧ entry.2.type.isConcrete := by
  unfold newFields at listed
  split at listed
  · rename_i decl isDecl
    obtain ⟨⟨field, plane⟩, paired, rfl⟩ := List.mem_map.1 listed
    have isType : type.shape.isType := by
      unfold Node.typeDecl? at isDecl
      split at isDecl
      · rename_i shape
        rw [shape]
        rfl
      · simp at isDecl
    have among := (List.mem_filter.1 (List.fst_mem_of_mem_zipIdx paired)).1
    refine ⟨isType, ?_, owedFields_concrete knows among⟩
    have least : 1 ≤ plane := List.le_snd_of_mem_zipIdx paired
    calc draft.fresh = 1 * draft.fresh := (Nat.one_mul _).symm
      _ ≤ plane * draft.fresh := Nat.mul_le_mul_right _ least
      _ ≤ plane * draft.fresh + type.id.index := Nat.le_add_right _ _
  · simp at listed

end Surroundings

theorem Notes.foldl_describe (entries : List (NodeId × Surroundings.OwedField)) (notes : Notes)
    (id : NodeId) :
    ((∀ entry ∈ entries, entry.1 ≠ id) →
      (entries.foldl (fun notes (id, field) => notes.describe id field.type) notes).descriptor? id =
        notes.descriptor? id) ∧
    ((∃ entry ∈ entries, entry.1 = id) → ∃ entry ∈ entries, entry.1 = id ∧
      (entries.foldl (fun notes (id, field) => notes.describe id field.type) notes).descriptor? id =
        some entry.2.type) ∧
    (entries.foldl (fun notes (id, field) => notes.describe id field.type) notes).binding? id =
      notes.binding? id ∧
    (entries.foldl (fun notes (id, field) => notes.describe id field.type) notes).mode id =
      notes.mode id := by
  induction entries generalizing notes with
  | nil => exact ⟨fun _ => rfl, fun ⟨_, listed, _⟩ => (nomatch listed), rfl, rfl⟩
  | cons first rest ih =>
    obtain ⟨absent, present, binding, mode⟩ := ih (notes.describe first.1 first.2.type)
    refine ⟨fun unlisted => ?_, fun _ => ?_, binding, mode⟩
    · refine (absent fun entry later => unlisted entry (List.mem_cons_of_mem _ later)).trans ?_
      rw [descriptor?_describe, if_neg (unlisted first List.mem_cons_self)]
    · by_cases later : ∃ entry ∈ rest, entry.1 = id
      · obtain ⟨entry, among, same, noted⟩ := present later
        exact ⟨entry, List.mem_cons_of_mem _ among, same, noted⟩
      · have last : ∀ entry ∈ rest, entry.1 ≠ id := fun entry among same =>
          later ⟨entry, among, same⟩
        obtain ⟨entry, listed, same⟩ := ‹∃ entry ∈ first :: rest, entry.1 = id›
        rcases List.mem_cons.1 listed with rfl | among
        · refine ⟨entry, List.mem_cons_self, same, (absent last).trans ?_⟩
          rw [descriptor?_describe, if_pos same]
        · exact absurd ⟨entry, among, same⟩ later

section Settle

variable {around : Surroundings} {draft : Draft} {state : ResolutionState}

namespace Surroundings

/-- The draft after the last sweep, with the marks for what is owed and no deferred descriptor. -/
def undeferred (around : Surroundings) (draft : Draft) (state : ResolutionState) : Draft :=
  let draft := { draft with
    root := state.root.mapUp (Obligation.apply state.obligations)
    parents := state.parents
    notes := state.notes
    fresh := state.fresh }
  { draft with notes := around.withoutDeferred draft.nodesById draft.notes }

def owed (around : Surroundings) (draft : Draft) : List (NodeId × OwedField) :=
  draft.root.typesBelow.flatMap (around.newFields draft)

theorem notes_settle : (around.settle draft state).notes =
    (around.owed (around.undeferred draft state)).foldl
      (fun notes (id, field) => notes.describe id field.type)
      (around.undeferred draft state).notes := rfl

theorem root_settle : (around.settle draft state).root =
    ((state.root.mapUp (Obligation.apply state.obligations)).mapUp
      (around.payFields (around.undeferred draft state))).mapUp Node.withVisibility := rfl

/-- A node of the settled tree was there before, or is a field that was owed. -/
theorem mem_settle {node : Node}
    (inside : node ∈ (around.settle draft state).root.descendants) :
    (∃ old ∈ state.root.descendants, node.Traces old) ∨
      ∃ entry ∈ around.owed (around.undeferred draft state), entry.1 = node.id ∧
        node.shape.family = .field := by
  rw [root_settle] at inside
  rcases Node.withVisibility_adds.traces_of_mem
    (fun _ family => Node.withVisibility_of_expression family) inside with
    ⟨paid, lies, third⟩ | ⟨_, _, leaf⟩
  case inr => exact nomatch leaf
  rcases payFields_adds.traces_of_mem
    (fun _ family => payFields_of_family (by rw [family]; decide)) lies with
    ⟨marked, below, second⟩ | ⟨type, below, leaf⟩
  · rcases (Obligation.apply_adds state.obligations).traces_of_mem
      (fun _ family => Obligation.apply_of_expression _ family) below with
      ⟨old, origin, first⟩ | ⟨_, _, leaf⟩
    · exact .inl ⟨old, origin, third.trans (second.trans first)⟩
    · exact nomatch leaf
  · obtain ⟨entry, listed, rfl⟩ := List.mem_map.1 leaf
    rw [newFields_rebuilt] at listed
    have isType : type.shape.isType := by
      unfold newFields Node.typeDecl? at listed
      cases shape : type.shape with
      | type decl => rfl
      | _ => simp [shape] at listed
    refine .inr ⟨entry, ?_, third.id.symm, third.family⟩
    exact List.mem_flatMap.2 ⟨type, List.mem_filter.2 ⟨below, isType⟩, listed⟩

theorem exists_mem_settle (draft : Draft) {old : Node} (inside : old ∈ state.root.descendants) :
    ∃ node ∈ (around.settle draft state).root.descendants, node.Traces old := by
  have marks := Obligation.apply_adds state.obligations
  have pays : Node.Adds (around.payFields (around.undeferred draft state)) _ := payFields_adds
  have shows := Node.withVisibility_adds
  rw [root_settle]
  refine ⟨_, shows.mem_descendants_mapUp.2 ⟨_, pays.mem_descendants_mapUp.2
    ⟨_, marks.mem_descendants_mapUp.2 ⟨old, inside, .inl rfl⟩, .inl rfl⟩, .inl rfl⟩, ?_⟩
  have marked : (old.mapUp (Obligation.apply state.obligations)).Traces old :=
    marks.traces_mapUp (fun _ family => Obligation.apply_of_expression _ family) old
  have paid := pays.traces_mapUp (fun _ family => payFields_of_family (by rw [family]; decide))
    (old.mapUp (Obligation.apply state.obligations))
  exact (shows.traces_mapUp (fun _ family => Node.withVisibility_of_expression family) _).trans
    (paid.trans marked)

theorem notes_settle_old (draft : Draft) (knows : around.KnowsOuter) {id : NodeId}
    (small : id.index < state.fresh) :
    (around.settle draft state).notes.descriptor? id = (state.notes.descriptor? id).map
        (around.concrete state.notes
          ((around.undeferred draft state).nodesById[id]?.any (·.shape.isDeclaration))) ∧
      (around.settle draft state).notes.binding? id = state.notes.binding? id ∧
      (around.settle draft state).notes.mode id = state.notes.mode id := by
  obtain ⟨absent, _, binding, mode⟩ := Notes.foldl_describe
    (around.owed (around.undeferred draft state)) (around.undeferred draft state).notes id
  have unlisted : ∀ entry ∈ around.owed (around.undeferred draft state), entry.1 ≠ id := by
    intro entry listed same
    obtain ⟨type, _, among⟩ := List.mem_flatMap.1 listed
    have large : state.fresh ≤ entry.1.index := (newFields_cases knows among).2.1
    rw [same] at large
    exact absurd small (Nat.not_lt.2 large)
  rw [notes_settle]
  refine ⟨(absent unlisted).trans ?_, binding, mode⟩
  exact descriptor?_withoutDeferred _ id

theorem notes_settle_new (knows : around.KnowsOuter) {entry : NodeId × OwedField}
    (listed : entry ∈ around.owed (around.undeferred draft state)) :
    ∃ descriptor, (around.settle draft state).notes.descriptor? entry.1 = some descriptor ∧
      descriptor.isConcrete := by
  obtain ⟨_, present, _⟩ := Notes.foldl_describe
    (around.owed (around.undeferred draft state)) (around.undeferred draft state).notes entry.1
  obtain ⟨other, among, _, noted⟩ := present ⟨entry, listed, rfl⟩
  obtain ⟨type, _, owed⟩ := List.mem_flatMap.1 among
  exact ⟨other.2.type, noted, (newFields_cases knows owed).2.2⟩

end Surroundings

namespace ResolutionState.Fits

variable {roles : NodeId → Role} {node : Node}

theorem settle_decides (fits : state.Fits around roles) (knows : around.KnowsOuter)
    (decides : ∀ old ∈ state.root.descendants, old.shape.isExpression → state.notes.Decides old)
    (inside : node ∈ (around.settle draft state).root.descendants)
    (expression : node.shape.isExpression) :
    (around.settle draft state).notes.Decides node ∧
      ∀ descriptor, (around.settle draft state).notes.descriptor? node.id = some descriptor →
        descriptor.isDeferred = false := by
  have family := (Shape.isExpression_iff _).1 expression
  rcases Surroundings.mem_settle inside with ⟨old, lies, traces⟩ | ⟨_, _, _, isField⟩
  · have isExpression : old.shape.isExpression :=
      (Shape.isExpression_iff _).2 (traces.family.symm.trans family)
    have known := decides old lies isExpression
    obtain ⟨descriptor, binding, mode⟩ :=
      Surroundings.notes_settle_old draft knows (fits.tree.small old lies)
    refine ⟨Notes.Decides.of_traces ⟨?_, fun reference => ?_, fun logical => ?_⟩ traces,
      fun other noted => ?_⟩
    · rw [descriptor, Option.isSome_map]
      exact known.descriptor
    · rw [binding]
      exact known.binding reference
    · obtain ⟨type, noted, gives⟩ := known.mode logical
      rw [descriptor, noted, mode]
      refine ⟨type, ?_, gives⟩
      rcases gives with ⟨_, rfl⟩ | ⟨_, kind, _, rfl⟩
      · rfl
      · rfl
    · rw [traces.id, descriptor] at noted
      obtain ⟨type, _, rfl⟩ := Option.map_eq_some_iff.1 noted
      exact Surroundings.concrete_known _ type
  · rw [family] at isField
    exact nomatch isField

theorem nodesById_undeferred (fits : state.Fits around roles) (draft : Draft)
    (inside : node ∈ state.root.descendants) :
    (around.undeferred draft state).nodesById[node.id]?.any (·.shape.isDeclaration) =
      node.shape.isDeclaration := by
  have adds := Obligation.apply_adds state.obligations
  have distinct : (state.root.mapUp (Obligation.apply state.obligations)).Distinct :=
    adds.distinct_of_none fits.tree.distinct
  have marked : node.mapUp (Obligation.apply state.obligations) ∈
      (around.undeferred draft state).root.descendants :=
    adds.mem_descendants_mapUp.2 ⟨node, inside, .inl rfl⟩
  have found : (around.undeferred draft state).nodesById[(node.mapUp
      (Obligation.apply state.obligations)).id]? =
        some (node.mapUp (Obligation.apply state.obligations)) :=
    Draft.nodesById_of_mem distinct marked
  rw [adds.id_mapUp] at found
  rw [found, Option.any_some, Shape.isDeclaration_congr (adds.family_mapUp node)]

theorem known_of_declares (fits : state.Fits around roles) (inside : node ∈ state.root.descendants)
    (declares : node.shape.isDeclaration) {descriptor : Descriptor}
    (noted : state.notes.descriptor? node.id = some descriptor) : descriptor.isDeferred = false := by
  refine fits.known noted ?_
  rw [fits.tree.role node inside]
  intro role
  cases shape : node.shape <;>
    simp_all [Shape.isDeclaration, Shape.isMember, Shape.family, Shape.Family.role]

theorem settle_describes_old (fits : state.Fits around roles) (knows : around.KnowsOuter)
    (draft : Draft) {old : Node} (lies : old ∈ state.root.descendants)
    (declares : old.shape.isDeclaration) (known : (state.notes.descriptor? old.id).isSome) :
    ∃ descriptor, (around.settle draft state).notes.descriptor? old.id = some descriptor ∧
      descriptor.isConcrete := by
  obtain ⟨type, noted⟩ := Option.isSome_iff_exists.1 known
  have settled := (Surroundings.notes_settle_old draft knows (fits.tree.small old lies)).1
  rw [fits.nodesById_undeferred draft lies, noted, declares] at settled
  rw [settled]
  exact ⟨_, rfl, Surroundings.concrete_isConcrete (fits.known_of_declares lies declares noted)⟩

theorem settle_describes (fits : state.Fits around roles) (knows : around.KnowsOuter)
    (describes : ∀ old ∈ state.root.descendants, old.shape.isDeclaration →
      (state.notes.descriptor? old.id).isSome)
    (inside : node ∈ (around.settle draft state).root.descendants)
    (declares : node.shape.isDeclaration) :
    ∃ descriptor, (around.settle draft state).notes.descriptor? node.id = some descriptor ∧
      descriptor.isConcrete := by
  rcases Surroundings.mem_settle inside with ⟨old, lies, traces⟩ | ⟨entry, listed, same, _⟩
  · have isDeclaration : old.shape.isDeclaration := by
      rw [← Shape.isDeclaration_congr traces.family]
      exact declares
    rw [traces.id]
    exact fits.settle_describes_old knows draft lies isDeclaration (describes old lies isDeclaration)
  · rw [← same]
    exact Surroundings.notes_settle_new knows listed

end ResolutionState.Fits

end Settle

/-- What holds between the sweeps of a resolution. -/
structure ResolutionState.Underway (state : ResolutionState) (around : Surroundings)
    (roles : NodeId → Role) (bound : Nat) : Prop where
  fits : state.Fits around roles
  older : bound ≤ state.fresh
  clear : state.implicit = []
  types : ∀ node ∈ state.root.descendants, node.shape.isType → (around.declared[node.id]?).isSome

theorem Surroundings.sweeps_induction {around : Surroundings} {motive : ResolutionState → Prop}
    {state : ResolutionState} (start : motive state)
    (step : ∀ {before}, motive before → motive (around.sweep false before)) (attempts : Nat) :
    motive (around.sweeps attempts state).2 := by
  induction attempts generalizing state with
  | zero => exact start
  | succ attempts ih =>
    unfold sweeps
    dsimp only
    split
    · exact ih (step start)
    · exact step start

namespace ResolutionState.Underway

variable {around : Surroundings} {roles : NodeId → Role} {state : ResolutionState} {bound : Nat}

theorem sweep (underway : state.Underway around roles bound) (static : around.Fits roles bound)
    (final : Bool) : (around.sweep final state).Underway around roles bound := by
  refine ⟨underway.fits.sweep final static underway.older, ?_, implicit_settleImplicit _, ?_⟩
  · exact Nat.le_trans underway.older
      (underway.fits.sweep_fresh_le final static underway.older)
  · intro node inside isType
    obtain ⟨implicit, root, locals⟩ := underway.fits.root_sweep final static underway.older
    have adds := declareIn_adds fun entry among => (locals entry among).1
    rw [root] at inside
    obtain ⟨old, lies, rfl | leaf⟩ := adds.mem_descendants_mapUp.1 inside
    · rw [Shape.isType_eq, adds.family_mapUp, ← Shape.isType_eq] at isType
      rw [adds.id_mapUp]
      exact underway.types old lies isType
    · obtain ⟨entry, among, rfl, _⟩ := mem_leavesOf leaf
      rw [Shape.isType_eq, (locals entry among).2] at isType
      exact nomatch isType

theorem sweeps (underway : state.Underway around roles bound) (static : around.Fits roles bound)
    (attempts : Nat) : (around.sweeps attempts state).2.Underway around roles bound ∧
      (1 ≤ attempts → (around.sweeps attempts state).2.Declared around) := by
  induction attempts generalizing state with
  | zero => exact ⟨underway, fun absurd => nomatch absurd⟩
  | succ attempts ih =>
    have next := underway.sweep static false
    have declared := underway.fits.sweep_declared false static underway.older
    unfold Surroundings.sweeps
    dsimp only
    split
    · obtain ⟨later, settled⟩ := ih next
      refine ⟨later, fun _ => ?_⟩
      cases attempts with
      | zero => exact declared
      | succ attempts => exact settled (Nat.le_add_left _ _)
    · exact ⟨next, fun _ => declared⟩

/-- What every sweep that is underway keeps holds after all of them. -/
theorem sweeps_induction (underway : state.Underway around roles bound)
    (static : around.Fits roles bound) {motive : ResolutionState → Prop} (start : motive state)
    (step : ∀ {before : ResolutionState}, before.Underway around roles bound → motive before →
      motive (around.sweep false before)) (attempts : Nat) :
    motive (around.sweeps attempts state).2 := by
  refine (Surroundings.sweeps_induction
    (motive := fun state => state.Underway around roles bound ∧ motive state) ⟨underway, start⟩ ?_
    attempts).2
  intro before holds
  exact ⟨holds.1.sweep static false, step holds.1 holds.2⟩

end ResolutionState.Underway

namespace Surroundings

variable {around : Surroundings} {draft : Draft}

theorem isSome_declared {entry : Node × List NodeId} (listed : entry ∈ draft.declarations)
    (declares : (around.declaredType? entry.2 entry.1).isSome) :
    ((around.withDeclared draft).declared[entry.1.id]?).isSome := by
  have later (step : Std.HashMap NodeId Descriptor → Node × List NodeId →
        Std.HashMap NodeId Descriptor)
      (notes : ∀ table, ((step table entry)[entry.1.id]?).isSome)
      (keeps : ∀ table other, (table[entry.1.id]?).isSome → ((step table other)[entry.1.id]?).isSome)
      (entries : List (Node × List NodeId)) (table : Std.HashMap NodeId Descriptor)
      (known : entry ∈ entries ∨ (table[entry.1.id]?).isSome) :
      ((entries.foldl step table)[entry.1.id]?).isSome := by
    induction entries generalizing table with
    | nil =>
      rcases known with among | known
      · simp at among
      · exact known
    | cons first rest ih =>
      refine ih _ ?_
      rcases known with among | known
      · rcases List.mem_cons.1 among with rfl | among
        · exact .inr (notes table)
        · exact .inl among
      · exact .inr (keeps table first known)
  refine later _ (fun table => ?_) (fun table other known => ?_) _ _ (.inl listed)
  · obtain ⟨type, isType⟩ := Option.isSome_iff_exists.1 declares
    simp [isType]
  · dsimp only
    split
    · rw [Std.HashMap.getElem?_insert]
      split
      · rfl
      · exact known
    · exact known

end Surroundings

namespace Draft.Formed

variable {symbols : SymbolTable} {options : MigrationOptions} {store : ScriptStore}
  {id : ScriptId} {script : Script} {draft : Draft}

theorem knowsOuter (formed : draft.Formed) :
    (Surroundings.forScript symbols options store id script draft).KnowsOuter := by
  intro type owner found
  obtain ⟨other, inside, rfl, isType⟩ := ScopeIndex.type_of_outer found
  rw [Surroundings.node?_own]
  rw [show (Surroundings.forScript symbols options store id script draft).nodes[other.id]? =
    some other from nodesById_of_mem formed.distinct inside]
  unfold Node.typeDecl?
  cases isShape : other.shape with
  | type decl => simp [isShape]
  | _ => simp [isShape, Shape.isType] at isType

theorem start_underway (formed : draft.Formed) (cache : MemberMemo) :
    ((Surroundings.forScript symbols options store id script draft).start draft cache).Underway
      (Surroundings.forScript symbols options store id script draft) draft.root.roleOf
        draft.fresh := by
  refine ⟨formed.start_fits cache, Nat.le_refl _, rfl, fun node inside isType => ?_⟩
  obtain ⟨place, listed, rfl⟩ := Node.exists_mem_placesUp inside
  have among : (place.node, place.types.map Node.id) ∈ draft.declarations :=
    List.mem_append_left _ (List.mem_map.2 ⟨place, Node.mem_places_iff.2 listed, rfl⟩)
  refine Surroundings.isSome_declared among ?_
  unfold Surroundings.declaredType?
  cases shape : place.node.shape with
  | type decl => rfl
  | _ => simp [shape, Shape.isType] at isType

end Draft.Formed

end ScriptMigration
