import ScriptMigration.Proofs.Resolution.Accounts

/-! What a resolved script has for what it owes. After the last sweep the types are marked with what they
owe, the fields for it are put before their members, and what is used from nested types is public; as all
that is bound is accounted for, nothing is missing. -/
namespace ScriptMigration

namespace Shape

variable {α β : Type}

def visibility? : Shape α → Option Visibility
  | type decl => some decl.visibility
  | field decl => some decl.visibility
  | method decl => some decl.visibility
  | property decl => some decl.visibility
  | _ => none

def fieldOrigin? : Shape α → Option Origin
  | field decl => some decl.origin
  | _ => none

def typeMarks? : Shape α → Option TypeMarks
  | type decl => some decl.marks
  | _ => none

@[simp] theorem visibility?_mapParts (shape : Shape α) (f : (a : α) → a ∈ shape.children → β) :
    (shape.mapParts f).visibility? = shape.visibility? := by
  cases shape with
  | loop test body => cases test <;> rfl
  | _ => rfl

@[simp] theorem fieldOrigin?_mapParts (shape : Shape α) (f : (a : α) → a ∈ shape.children → β) :
    (shape.mapParts f).fieldOrigin? = shape.fieldOrigin? := by
  cases shape with
  | loop test body => cases test <;> rfl
  | _ => rfl

@[simp] theorem typeMarks?_mapParts (shape : Shape α) (f : (a : α) → a ∈ shape.children → β) :
    (shape.mapParts f).typeMarks? = shape.typeMarks? := by
  cases shape with
  | loop test body => cases test <;> rfl
  | _ => rfl

end Shape

def Node.fieldsFrom (type : Node) (origin : Origin) : List Node :=
  type.children.filter (·.shape.fieldOrigin? == some origin)

/-- The fields that were made for a type stand before all that is written there: at most one that
refers to the type around it, then at most one for the form, and at most one for arguments that are
left out. -/
structure Node.MadeFirst (type : Node) : Prop where
  order : ∃ made written, type.children = made ++ written ∧
    (made.map (·.shape.fieldOrigin?)).Sublist [some .outerRef, some .formField, some .missingValue] ∧
    ∀ member ∈ written, ∀ origin, member.shape.fieldOrigin? = some origin → origin = .source

/-- A nested type refers to the type around it: it is marked to do so, and it has one field for that,
which holds the type around it. -/
structure Draft.RefersOut (draft : Draft) (script : ScriptId) (type outer : Node) : Prop where
  marked : type.shape.typeMarks?.any (·.needsOuter)
  field : ∃ field name, type.fieldsFrom .outerRef = [field] ∧ outer.declName? = some name ∧
    draft.notes.descriptor? field.id = some (.ofScript ⟨script, outer.id⟩ name)

/-- Of types around each other every one refers to the next, up to the first that declares a member.
This is public. -/
inductive Draft.LeadsTo (draft : Draft) (script : ScriptId) (decl : NodeId) : List Node → Prop where
  | owner {owner member : Node} {around : List Node} (declares : member ∈ owner.children)
      (same : member.id = decl) (shown : member.shape.visibility? = some .everyone) :
      LeadsTo draft script decl (owner :: around)
  | outwards {type outer : Node} {around : List Node}
      (passed : ∀ member ∈ type.children, member.id ≠ decl)
      (refers : draft.RefersOut script type outer)
      (leads : LeadsTo draft script decl (outer :: around)) :
      LeadsTo draft script decl (type :: outer :: around)

structure Draft.Discharged (draft : Draft) (script : ScriptId) : Prop where
  outer : ∀ place ∈ draft.root.placesUp, ∀ decl,
    draft.notes.binding? place.node.id = some (.outer decl) →
      decl.script = script ∧ draft.LeadsTo script decl.node place.types
  form : ∀ place ∈ draft.root.placesUp, ∀ binding,
    draft.notes.binding? place.node.id = some binding →
      (binding = .form ∨ ∃ name, binding = .formMember name) →
      ∃ type field, place.type? = some type ∧ type.fieldsFrom .formField = [field]
  missing : ∀ place ∈ draft.root.placesUp, place.node.shape = .missing →
    ∃ type field, place.type? = some type ∧ type.fieldsFrom .missingValue = [field]
  order : ∀ type ∈ draft.root.descendants, type.shape.isType → type.MadeFirst
  decided : ∀ node ∈ draft.root.descendants, node.shape.visibility? ≠ some .undecided

section Passes

namespace Obligation

variable (obligations : Std.HashSet Obligation) (node : Node)

variable {obligations node} in
theorem shape_apply {decl : TypeDecl Node} (shape : node.shape = .type decl) :
    (apply obligations node).shape = .type { decl with
      marks := markType obligations node.id decl.marks } := by
  unfold apply
  dsimp only
  rw [shape]
  rfl

theorem read_apply {β : Type} {read : Shape Node → β}
    (type : ∀ decl marks, read (.type { decl with marks }) = read (.type decl))
    (field : ∀ decl marks visibility, read (.field { decl with marks, visibility }) = read (.field decl))
    (method : ∀ decl marks visibility, read (.method { decl with marks, visibility }) = read (.method decl))
    (property : ∀ decl marks visibility,
      read (.property { decl with marks, visibility }) = read (.property decl)) :
    read (apply obligations node).shape = read node.shape := by
  fun_cases apply obligations node <;> simp only [*, Node.shape_withShape]

theorem declName?_apply : (apply obligations node).shape.declName? = node.shape.declName? :=
  read_apply _ _ (fun _ _ => rfl) (fun _ _ _ => rfl) (fun _ _ _ => rfl) fun _ _ _ => rfl

theorem fieldOrigin?_apply :
    (apply obligations node).shape.fieldOrigin? = node.shape.fieldOrigin? :=
  read_apply _ _ (fun _ _ => rfl) (fun _ _ _ => rfl) (fun _ _ _ => rfl) fun _ _ _ => rfl

theorem typeMarks?_apply : (apply obligations node).shape.typeMarks? =
    node.shape.typeMarks?.map (markType obligations node.id) := by
  fun_cases apply obligations node <;> simp [*, Node.shape_withShape, Shape.typeMarks?]

theorem shown_apply (promoted : .promoted node.id ∈ obligations) (isMember : ¬node.shape.isType) :
    (apply obligations node).shape.visibility? = node.shape.visibility?.map fun _ => .everyone := by
  fun_cases apply obligations node <;>
    simp_all +zetaDelta [Node.shape_withShape, Shape.visibility?, Shape.isType]

theorem visibility?_apply (isType : node.shape.isType) :
    (apply obligations node).shape.visibility? = node.shape.visibility? := by
  obtain ⟨decl, shape⟩ := (Shape.isType_iff _).1 isType
  rw [shape_apply shape, shape]
  rfl

end Obligation

namespace Node

variable (node : Node)

theorem read_withVisibility {β : Type} {read : Shape Node → β}
    (type : ∀ decl visibility, read (.type { decl with visibility }) = read (.type decl))
    (method : ∀ decl visibility, read (.method { decl with visibility }) = read (.method decl))
    (property : ∀ decl visibility, read (.property { decl with visibility }) = read (.property decl))
    (field : ∀ decl visibility, read (.field { decl with visibility }) = read (.field decl)) :
    read node.withVisibility.shape = read node.shape := by
  fun_cases withVisibility node <;> simp only [*, shape_withShape]

theorem declName?_withVisibility : node.withVisibility.shape.declName? = node.shape.declName? :=
  read_withVisibility _ (fun _ _ => rfl) (fun _ _ => rfl) (fun _ _ => rfl) fun _ _ => rfl

theorem fieldOrigin?_withVisibility :
    node.withVisibility.shape.fieldOrigin? = node.shape.fieldOrigin? :=
  read_withVisibility _ (fun _ _ => rfl) (fun _ _ => rfl) (fun _ _ => rfl) fun _ _ => rfl

theorem typeMarks?_withVisibility :
    node.withVisibility.shape.typeMarks? = node.shape.typeMarks? :=
  read_withVisibility _ (fun _ _ => rfl) (fun _ _ => rfl) (fun _ _ => rfl) fun _ _ => rfl

theorem decided_withVisibility : node.withVisibility.shape.visibility? ≠ some .undecided := by
  fun_cases withVisibility node <;>
    simp_all [shape_withShape, Shape.visibility?, Visibility.isDecided]
  all_goals split <;> decide

theorem shown_withVisibility (shown : node.shape.visibility? = some .everyone) :
    node.withVisibility.shape.visibility? = some .everyone := by
  fun_cases withVisibility node <;>
    simp_all [Shape.visibility?, Visibility.isDecided]

theorem shown_withVisibility_of_isType (isType : node.shape.isType)
    (shown : node.shape.visibility? ≠ some .owner) :
    node.withVisibility.shape.visibility? = some .everyone := by
  obtain ⟨decl, shape⟩ := (Shape.isType_iff _).1 isType
  rw [shape] at shown
  change some decl.visibility ≠ some .owner at shown
  unfold withVisibility
  cases visibility : decl.visibility <;>
    simp_all [shape_withShape, Shape.visibility?, Visibility.isDecided]

end Node

theorem exists_filter_eq_singleton {α β : Type} [BEq β] [LawfulBEq β] {read : α → β} {list : List α}
    {image : β} (once : (list.map read).Nodup) (among : image ∈ list.map read) :
    ∃ element ∈ list, read element = image ∧ list.filter (read · == image) = [element] := by
  induction list with
  | nil => exact absurd among List.not_mem_nil
  | cons first rest ih =>
    obtain ⟨absent, once⟩ := List.nodup_cons.1 once
    by_cases same : read first = image
    · refine ⟨first, List.mem_cons_self, same, ?_⟩
      rw [List.filter_cons, if_pos (beq_iff_eq.2 same), List.filter_eq_nil_iff.2]
      intro other listed equal
      exact absent (List.mem_map.2 ⟨other, listed, (eq_of_beq equal).trans same.symm⟩)
    · obtain ⟨element, listed, isImage, alone⟩ :=
        ih once ((List.mem_cons.1 among).resolve_left (Ne.symm same))
      refine ⟨element, List.mem_cons_of_mem _ listed, isImage, ?_⟩
      rw [List.filter_cons, if_neg (mt beq_iff_eq.1 same), alone]

namespace Surroundings

variable {around : Surroundings} {draft : Draft} {state : ResolutionState}

theorem read_payFields {β : Type} {read : Shape Node → β}
    (type : ∀ decl members, read (.type { decl with members }) = read (.type decl)) (node : Node) :
    read (around.payFields draft node).shape = read node.shape := by
  unfold payFields
  split
  · rename_i decl shape
    rw [shape]
    exact type _ _
  · rfl

def settledNode (around : Surroundings) (draft : Draft) (state : ResolutionState) (node : Node) :
    Node :=
  ((node.mapUp (Obligation.apply state.obligations)).mapUp
    (around.payFields (around.undeferred draft state))).mapUp Node.withVisibility

section SettledNode

variable (around draft state) (node : Node)

theorem id_settledNode : (around.settledNode draft state node).id = node.id :=
  (Node.withVisibility_adds.id_mapUp _).trans
    ((payFields_adds.id_mapUp _).trans ((Obligation.apply_adds _).id_mapUp node))

theorem family_settledNode :
    (around.settledNode draft state node).shape.family = node.shape.family :=
  (Node.withVisibility_adds.family_mapUp _).trans
    ((payFields_adds.family_mapUp _).trans ((Obligation.apply_adds _).family_mapUp node))

theorem declName?_settledNode :
    (around.settledNode draft state node).declName? = node.declName? := by
  have parts (shape : Shape Node) (f : (part : Node) → part ∈ shape.children → Node) :
      (shape.mapParts f).declName? = shape.declName? := shape.declName?_mapParts f
  exact (Node.read_mapUp parts Node.declName?_withVisibility _).trans
    ((Node.read_mapUp parts (read_payFields fun _ _ => rfl) _).trans
      (Node.read_mapUp parts (Obligation.declName?_apply _) node))

theorem fieldOrigin?_settledNode :
    (around.settledNode draft state node).shape.fieldOrigin? = node.shape.fieldOrigin? := by
  have parts (shape : Shape Node) (f : (part : Node) → part ∈ shape.children → Node) :
      (shape.mapParts f).fieldOrigin? = shape.fieldOrigin? := shape.fieldOrigin?_mapParts f
  exact (Node.read_mapUp parts Node.fieldOrigin?_withVisibility _).trans
    ((Node.read_mapUp parts (read_payFields fun _ _ => rfl) _).trans
      (Node.read_mapUp parts (Obligation.fieldOrigin?_apply _) node))

theorem typeMarks?_settledNode : (around.settledNode draft state node).shape.typeMarks? =
    node.shape.typeMarks?.map (Obligation.markType state.obligations node.id) := by
  have parts (shape : Shape Node) (f : (part : Node) → part ∈ shape.children → Node) :
      (shape.mapParts f).typeMarks? = shape.typeMarks? := shape.typeMarks?_mapParts f
  refine (Node.read_mapUp parts Node.typeMarks?_withVisibility _).trans
    ((Node.read_mapUp parts (read_payFields fun _ _ => rfl) _).trans ?_)
  rw [Node.mapUp_eq, Obligation.typeMarks?_apply, Node.id_rebuilt]
  exact congrArg _ (parts _ _)

theorem isMissing_settledNode : isMissing (around.settledNode draft state node) = isMissing node := by
  rw [settledNode,
    isMissing_mapUp (fun _ => Node.withVisibility_of_expression) Node.withVisibility_adds.family,
    isMissing_mapUp (fun _ family => payFields_of_family (by rw [family]; decide))
      payFields_adds.family,
    isMissing_mapUp (fun _ => Obligation.apply_of_expression _) (Obligation.apply_adds _).family]

variable {node}

private theorem visibility?_paidNode (node : Node) :
    ((node.mapUp (around.payFields draft)).rebuilt Node.withVisibility).shape.visibility? =
      node.shape.visibility? :=
  (Shape.visibility?_mapParts _ _).trans
    (Node.read_mapUp (fun shape f => shape.visibility?_mapParts f) (read_payFields fun _ _ => rfl) _)

theorem shown_settledNode (promoted : .promoted node.id ∈ state.obligations)
    (isMember : ¬node.shape.isType) (declared : node.shape.visibility?.isSome) :
    (around.settledNode draft state node).shape.visibility? = some .everyone := by
  obtain ⟨visibility, visible⟩ := Option.isSome_iff_exists.1 declared
  rw [settledNode, Node.mapUp_eq]
  refine Node.shown_withVisibility _ ((visibility?_paidNode around _ _).trans ?_)
  rw [Node.mapUp_eq, Obligation.shown_apply _ _ (by rwa [Node.id_rebuilt])]
  · rw [show (node.rebuilt _).shape.visibility? = some visibility from
      (Shape.visibility?_mapParts _ _).trans visible]
    rfl
  · rwa [Shape.isType_eq, Node.family_rebuilt, ← Shape.isType_eq]

theorem shown_settledNode_of_isType (isType : node.shape.isType)
    (shown : node.shape.visibility? ≠ some .owner) :
    (around.settledNode draft state node).shape.visibility? = some .everyone := by
  have marked : (node.mapUp (Obligation.apply state.obligations)).shape.visibility? =
      node.shape.visibility? := by
    rw [Node.mapUp_eq, Obligation.visibility?_apply]
    · exact Shape.visibility?_mapParts _ _
    · rwa [Shape.isType_eq, Node.family_rebuilt, ← Shape.isType_eq]
  rw [settledNode, Node.mapUp_eq]
  refine Node.shown_withVisibility_of_isType _ ?_ ?_
  · rwa [Shape.isType_eq, Node.family_rebuilt, payFields_adds.family_mapUp,
      (Obligation.apply_adds _).family_mapUp, ← Shape.isType_eq]
  · rwa [visibility?_paidNode, marked]

structure WrittenType (type : Node) : Prop where
  isType : type.shape.isType
  members : ∀ member ∈ type.children, member.shape.family ≠ .localVar
  origins : ∀ member ∈ type.children, ∀ origin, member.shape.fieldOrigin? = some origin →
    origin = .source

theorem origins_owedFields (marks : TypeMarks) (outer : Option NodeId) :
    ((around.owedFields marks outer).map (·.origin)).Sublist
      [.outerRef, .formField, .missingValue] := by
  unfold owedFields
  dsimp only
  rw [List.map_append, List.map_append]
  change List.Sublist _ (([Origin.outerRef] ++ [Origin.formField]) ++ [Origin.missingValue])
  refine (List.Sublist.append ?_ ?_).append ?_
  · split <;> simp
  · split <;> simp
  · split <;> simp

theorem newFields_marked {type : Node} (written : WrittenType type) :
    ∃ marks, (around.settledNode draft state type).shape.typeMarks? = some marks ∧
      around.newFields (around.undeferred draft state)
          (type.mapUp (Obligation.apply state.obligations)) =
        ((around.owedFields marks (around.types[type.id]?.bind (·.outer))).zipIdx 1).map
          fun (field, plane) => ((around.undeferred draft state).newId plane type.id, field) := by
  obtain ⟨decl, shape⟩ := (Shape.isType_iff _).1 written.isType
  have rebuilt := Node.shape_rebuilt_of_type shape (Obligation.apply state.obligations)
  have marked : (type.mapUp (Obligation.apply state.obligations)).shape = .type { decl with
      members := decl.members.map (Node.mapUp (Obligation.apply state.obligations))
      marks := Obligation.markType state.obligations type.id decl.marks } := by
    rw [Node.mapUp_eq, Obligation.shape_apply rebuilt, Node.id_rebuilt]
  refine ⟨Obligation.markType state.obligations type.id decl.marks, ?_, ?_⟩
  · rw [typeMarks?_settledNode, shape]
    rfl
  · have fresh (member : Node) (listed : member ∈ decl.members) (field : OwedField)
        (among : field ∈ around.owedFields
          (Obligation.markType state.obligations type.id decl.marks)
          (around.types[type.id]?.bind (·.outer))) :
        ((member.mapUp (Obligation.apply state.obligations)).varDecl?).any
          (·.origin == field.origin) = false := by
      have inside : member ∈ type.children := by
        rw [Node.children, shape]
        exact listed
      have family := (Obligation.apply_adds state.obligations).family_mapUp member
      have origin := Node.read_mapUp (fun shape f => shape.fieldOrigin?_mapParts f)
        (Obligation.fieldOrigin?_apply state.obligations) member
      have isMade := (origins_owedFields around _ _).subset (List.mem_map_of_mem among)
      unfold Node.varDecl?
      cases shape : (member.mapUp (Obligation.apply state.obligations)).shape with
      | field decl =>
        rw [shape] at origin
        have source := written.origins member inside decl.origin origin.symm
        simp only [Shape.varDecl?, Option.any_some, source]
        exact beq_false_of_ne fun same => absurd (same ▸ isMade) (by decide)
      | localVar decl =>
        rw [shape] at family
        exact absurd family.symm (written.members member inside)
      | _ => rfl
    unfold newFields Node.typeDecl?
    rw [marked]
    dsimp only
    unfold missingFields
    dsimp only
    rw [(Obligation.apply_adds _).id_mapUp, List.filter_eq_self.2]
    intro field among
    simp only [List.any_map, Bool.not_eq_true', List.any_eq_false, Function.comp_apply]
    intro member listed
    rw [fresh member listed field among]
    decide

theorem children_settledNode (type : Node) : (around.settledNode draft state type).children =
    around.paidFields (around.undeferred draft state)
        (type.mapUp (Obligation.apply state.obligations)) ++
      type.children.map (around.settledNode draft state) := by
  rw [settledNode, Node.withVisibility_adds.children_mapUp, payFields_adds.children_mapUp,
    (Obligation.apply_adds _).children_mapUp, List.nil_append, List.nil_append, List.map_append,
    List.map_map, List.map_map]
  congr 1
  rw [paidFields, newFields_rebuilt, List.map_map, paidFields]
  -- A field for the type itself is private already.
  refine List.map_congr_left fun entry _ => Node.mapUp_of_fixed fun node inside => ?_
  rw [Node.descendants_eq] at inside
  obtain rfl := List.mem_singleton.1 inside
  rfl

structure Opens (around : Surroundings) (draft : Draft) (state : ResolutionState) (type : Node)
    (marks : TypeMarks) (made : List Node) : Prop where
  marked : (around.settledNode draft state type).shape.typeMarks? = some marks
  children : (around.settledNode draft state type).children =
    made ++ type.children.map (around.settledNode draft state)
  origins : made.map (·.shape.fieldOrigin?) =
    (around.owedFields marks (around.types[type.id]?.bind (·.outer))).map (some ·.origin)
  paid : ∀ field ∈ made, ∃ owed ∈ around.owedFields marks (around.types[type.id]?.bind (·.outer)),
    field.shape.fieldOrigin? = some owed.origin ∧
      (field.id, owed) ∈ around.newFields (around.undeferred draft state)
        (type.mapUp (Obligation.apply state.obligations))

theorem WrittenType.opens {type : Node} (written : WrittenType type) :
    ∃ marks made, around.Opens draft state type marks made := by
  obtain ⟨marks, isMarked, fields⟩ := newFields_marked around draft state written
  refine ⟨marks, _, isMarked, children_settledNode around draft state type, ?_, ?_⟩
  · rw [paidFields, fields, List.map_map, List.map_map]
    have pairs (owed : List OwedField) (first : Nat) : (owed.zipIdx first).map Prod.fst = owed := by
      simp
    nth_rewrite 2 [← pairs (around.owedFields marks _) 1]
    rw [List.map_map]
    rfl
  · intro field listed
    obtain ⟨⟨id, owed⟩, among, rfl⟩ := List.mem_map.1 listed
    refine ⟨owed, ?_, rfl, among⟩
    rw [fields] at among
    obtain ⟨⟨other, plane⟩, paired, same⟩ := List.mem_map.1 among
    obtain ⟨-, rfl⟩ := Prod.mk.inj same
    exact List.fst_mem_of_mem_zipIdx paired

namespace Opens

variable {around draft state} {type : Node} {marks : TypeMarks} {made : List Node}

theorem madeFirst (opens : around.Opens draft state type marks made) (written : WrittenType type) :
    (around.settledNode draft state type).MadeFirst := by
  refine ⟨made, _, opens.children, ?_, fun member listed origin isOrigin => ?_⟩
  · have listed := (origins_owedFields around marks (around.types[type.id]?.bind (·.outer))).map
      (some : Origin → Option Origin)
    rw [opens.origins]
    rwa [List.map_map] at listed
  · obtain ⟨old, among, rfl⟩ := List.mem_map.1 listed
    rw [fieldOrigin?_settledNode] at isOrigin
    exact written.origins old among origin isOrigin

theorem exists_field (opens : around.Opens draft state type marks made) (written : WrittenType type)
    (owed : OwedField)
    (owes : owed ∈ around.owedFields marks (around.types[type.id]?.bind (·.outer))) :
    ∃ field, (field.id, owed) ∈ around.newFields (around.undeferred draft state)
        (type.mapUp (Obligation.apply state.obligations)) ∧
      (around.settledNode draft state type).fieldsFrom owed.origin = [field] := by
  have listed := origins_owedFields around marks (around.types[type.id]?.bind (·.outer))
  have once := listed.nodup (by decide)
  have madeOnce : (made.map (·.shape.fieldOrigin?)).Nodup := by
    have nodup := once.map (Option.some_injective Origin)
    rw [opens.origins]
    rwa [List.map_map] at nodup
  have among : some owed.origin ∈ made.map (·.shape.fieldOrigin?) := by
    rw [opens.origins]
    exact List.mem_map_of_mem owes
  obtain ⟨field, inside, isOrigin, alone⟩ := exists_filter_eq_singleton madeOnce among
  refine ⟨field, ?_, ?_⟩
  · obtain ⟨other, alsoOwed, sameOrigin, paid⟩ := opens.paid field inside
    have same := Option.some.inj (sameOrigin.symm.trans isOrigin)
    obtain rfl := List.inj_on_of_nodup_map once alsoOwed owes same
    exact paid
  · rw [Node.fieldsFrom, opens.children, List.filter_append, alone, List.filter_eq_nil_iff.2,
      List.append_nil]
    intro member isMember same
    obtain ⟨old, wasMember, rfl⟩ := List.mem_map.1 isMember
    rw [fieldOrigin?_settledNode] at same
    have source := written.origins old wasMember owed.origin (eq_of_beq same)
    have isMade := listed.subset (List.mem_map_of_mem owes)
    rw [source] at isMade
    exact absurd isMade (by decide)

end Opens

end SettledNode

theorem plane_of_mem_newFields {draft : Draft} {type : Node} {entry : NodeId × OwedField}
    (listed : entry ∈ around.newFields draft type) : ∃ decl plane, type.typeDecl? = some decl ∧
      (entry.2, plane) ∈ (around.missingFields type decl).zipIdx 1 ∧
      entry.1 = draft.newId plane type.id := by
  unfold newFields at listed
  split at listed
  · rename_i decl isDecl
    obtain ⟨⟨field, plane⟩, paired, rfl⟩ := List.mem_map.1 listed
    exact ⟨decl, plane, isDecl, paired, rfl⟩
  · exact nomatch listed

theorem newFields_inj {draft : Draft} {type other : Node} (small : type.id.index < draft.fresh)
    (alsoSmall : other.id.index < draft.fresh) (alone : type.id = other.id → type = other)
    {entry entry' : NodeId × OwedField} (listed : entry ∈ around.newFields draft type)
    (listed' : entry' ∈ around.newFields draft other) (same : entry.1 = entry'.1) :
    entry = entry' := by
  obtain ⟨decl, plane, isDecl, paired, made⟩ := plane_of_mem_newFields listed
  obtain ⟨decl', plane', isDecl', paired', made'⟩ := plane_of_mem_newFields listed'
  obtain ⟨rfl, sameType⟩ := draft.newId_inj small alsoSmall (made.symm.trans (same.trans made'))
  obtain rfl := alone sameType
  obtain rfl := Option.some.inj (isDecl.symm.trans isDecl')
  have field := (List.mk_mem_zipIdx_iff_le_and_getElem?_sub.1 paired).2
  have field' := (List.mk_mem_zipIdx_iff_le_and_getElem?_sub.1 paired').2
  exact Prod.ext same (Option.some.inj (field.symm.trans field'))

theorem notes_settle_paid {roles : NodeId → Role} (fits : state.Fits around roles) {type : Node}
    (inside : type ∈ state.root.descendants) (isType : type.shape.isType)
    {entry : NodeId × OwedField} (listed : entry ∈ around.newFields (around.undeferred draft state)
      (type.mapUp (Obligation.apply state.obligations))) :
    (around.settle draft state).notes.descriptor? entry.1 = some entry.2.type := by
  have marks := Obligation.apply_adds state.obligations
  have distinct : (around.undeferred draft state).root.Distinct :=
    marks.distinct_of_none fits.tree.distinct
  have small {node : Node} (lies : node ∈ (around.undeferred draft state).root.descendants) :
      node.id.index < (around.undeferred draft state).fresh := by
    obtain ⟨old, origin, rfl | leaf⟩ := marks.mem_descendants_mapUp.1 lies
    · rw [marks.id_mapUp]
      exact fits.tree.small old origin
    · exact nomatch leaf
  have here : type.mapUp (Obligation.apply state.obligations) ∈
      (around.undeferred draft state).root.descendants :=
    marks.mem_descendants_mapUp.2 ⟨type, inside, .inl rfl⟩
  have owes : entry ∈ around.owed (around.undeferred draft state) := by
    refine List.mem_flatMap.2 ⟨_, List.mem_filter.2 ⟨here, ?_⟩, listed⟩
    rwa [Shape.isType_eq, marks.family_mapUp, ← Shape.isType_eq]
  obtain ⟨_, present, _⟩ := Notes.foldl_describe (around.owed (around.undeferred draft state))
    (around.undeferred draft state).notes entry.1
  obtain ⟨other, among, same, noted⟩ := present ⟨entry, owes, rfl⟩
  obtain ⟨owner, isOwner, owed⟩ := List.mem_flatMap.1 among
  have lies := (List.mem_filter.1 isOwner).1
  obtain rfl := newFields_inj (small lies) (small here) (distinct.eq_of_id_eq lies here) owed listed same
  exact noted

def settledPlace (around : Surroundings) (draft : Draft) (state : ResolutionState) (place : Place) :
    Place :=
  ⟨around.settledNode draft state place.node, place.around.map (around.settledNode draft state)⟩

theorem types_settledPlace (place : Place) : (around.settledPlace draft state place).types =
    place.types.map (around.settledNode draft state) := by
  have marks := Obligation.apply_adds state.obligations
  have pays : Node.Adds (around.payFields (around.undeferred draft state)) _ := payFields_adds
  have same : around.settledPlace draft state place =
      ((place.mapUp (Obligation.apply state.obligations)).mapUp
        (around.payFields (around.undeferred draft state))).mapUp Node.withVisibility := by
    simp only [settledPlace, Place.mapUp, List.map_map]
    rfl
  rw [same, Place.types_mapUp Node.withVisibility_adds, Place.types_mapUp pays,
    Place.types_mapUp marks, List.map_map, List.map_map]
  rfl

theorem type?_settledPlace (place : Place) : (around.settledPlace draft state place).type? =
    place.type?.map (around.settledNode draft state) := by
  rw [Place.type?_eq_head?, Place.type?_eq_head?, types_settledPlace, List.head?_map]

theorem mem_placesUp_settle {place : Place}
    (listed : place ∈ (around.settle draft state).root.placesUp) :
    (∃ old ∈ state.root.placesUp, place = around.settledPlace draft state old) ∨
      ∃ entry ∈ around.owed (around.undeferred draft state), entry.1 = place.node.id ∧
        place.node.shape.family = .field := by
  have marks := Obligation.apply_adds state.obligations
  have pays : Node.Adds (around.payFields (around.undeferred draft state)) _ := payFields_adds
  rw [root_settle] at listed
  rcases Node.withVisibility_adds.mem_placesUp_mapUp listed with ⟨paid, placed, rfl⟩ | ⟨_, _, leaf⟩
  case inr => exact nomatch leaf
  rcases pays.mem_placesUp_mapUp placed with ⟨marked, lies, rfl⟩ | ⟨type, below, leaf⟩
  · rcases marks.mem_placesUp_mapUp lies with ⟨old, origin, rfl⟩ | ⟨_, _, leaf⟩
    · refine .inl ⟨old, origin, ?_⟩
      simp only [settledPlace, Place.mapUp, List.map_map]
      rfl
    · exact nomatch leaf
  · obtain ⟨entry, listed, same⟩ := List.mem_map.1 leaf
    rw [newFields_rebuilt] at listed
    obtain ⟨decl, -, isDecl, -⟩ := plane_of_mem_newFields listed
    refine .inr ⟨entry, List.mem_flatMap.2 ⟨type, List.mem_filter.2 ⟨below, ?_⟩, listed⟩, ?_, ?_⟩
    · rw [Node.shape_of_typeDecl? isDecl]
      rfl
    · refine Eq.trans ?_ (Node.withVisibility_adds.id_mapUp paid.node).symm
      rw [← same]
      rfl
    · refine (Node.withVisibility_adds.family_mapUp paid.node).trans ?_
      rw [← same]
      rfl

namespace Opens

variable {type : Node} {marks : TypeMarks} {made : List Node}

theorem marks_eq (opens : around.Opens draft state type marks made) :
    ∃ before, marks = Obligation.markType state.obligations type.id before := by
  have marked := opens.marked
  rw [typeMarks?_settledNode, Option.map_eq_some_iff] at marked
  obtain ⟨before, -, same⟩ := marked
  exact ⟨before, same.symm⟩

theorem exists_formField (opens : around.Opens draft state type marks made)
    (written : WrittenType type) (owes : .form type.id ∈ state.obligations) :
    ∃ field, (around.settledNode draft state type).fieldsFrom .formField = [field] := by
  obtain ⟨before, rfl⟩ := opens.marks_eq
  obtain ⟨field, -, alone⟩ := opens.exists_field written
    ⟨around.options.formFieldName, .formField,
      (around.symbols.formType.map Descriptor.ofExternal).getD .object⟩ (by
    simp [owedFields, Obligation.markType, owes])
  exact ⟨field, alone⟩

theorem exists_missingField (opens : around.Opens draft state type marks made)
    (written : WrittenType type) (owes : .missing type.id ∈ state.obligations) :
    ∃ field, (around.settledNode draft state type).fieldsFrom .missingValue = [field] := by
  obtain ⟨before, rfl⟩ := opens.marks_eq
  obtain ⟨field, -, alone⟩ := opens.exists_field written
    ⟨around.options.missingFieldName, .missingValue, .object⟩ (by
    simp [owedFields, Obligation.markType, owes])
  exact ⟨field, alone⟩

theorem refersOut {roles : NodeId → Role} (opens : around.Opens draft state type marks made)
    (written : WrittenType type) (fits : state.Fits around roles)
    (inside : type ∈ state.root.descendants) {outer : Node} {name : String}
    (isOuter : around.types[type.id]?.bind (·.outer) = some outer.id)
    (named : outer.declName? = some name)
    (known : around.declDescriptor? ⟨around.script, outer.id⟩ =
      some (.ofScript ⟨around.script, outer.id⟩ name))
    (owes : .outer type.id ∈ state.obligations) :
    (around.settle draft state).RefersOut around.script (around.settledNode draft state type)
      (around.settledNode draft state outer) := by
  obtain ⟨before, rfl⟩ := opens.marks_eq
  have needs : (Obligation.markType state.obligations type.id before).needsOuter := by
    simp [Obligation.markType, owes]
  obtain ⟨field, paid, alone⟩ := opens.exists_field written
    ⟨around.options.outerFieldName, .outerRef,
      (around.declDescriptor? ⟨around.script, outer.id⟩).getD .object⟩ (by
    unfold owedFields
    rw [needs, isOuter]
    simp)
  refine ⟨?_, field, name, alone, (declName?_settledNode around draft state outer).trans named, ?_⟩
  · rw [opens.marked]
    exact needs
  · rw [notes_settle_paid fits inside written.isType paid, id_settledNode, known]
    rfl

end Opens

end Surroundings

end Passes

section Settle

variable {around : Surroundings} {state : ResolutionState} {roles : NodeId → Role} {old : Node}

theorem Node.types_inside {root type : Node} {place : Place} (placed : place ∈ root.placesUp)
    (listed : type ∈ place.types) : type ∈ root.descendants ∧ type.shape.isType := by
  obtain ⟨among, isType⟩ := List.mem_filter.1 listed
  exact ⟨Node.around_subset placed among, isType⟩

theorem Surroundings.decided_settle {draft : Draft} {node : Node}
    (inside : node ∈ (around.settle draft state).root.descendants) :
    node.shape.visibility? ≠ some .undecided := by
  rw [root_settle] at inside
  obtain ⟨paid, _, rfl | leaf⟩ := Node.withVisibility_adds.mem_descendants_mapUp.1 inside
  · rw [Node.mapUp_eq]
    exact Node.decided_withVisibility _
  · cases leaf

theorem ResolutionState.Keeps.bound_before (keeps : state.Keeps roles old)
    (fits : state.Fits around roles) (knows : around.KnowsOuter) {draft : Draft} {place : Place}
    {binding : Binding} (listed : place ∈ (around.settle draft state).root.placesUp)
    (noted : (around.settle draft state).notes.binding? place.node.id = some binding) :
    ∃ before ∈ state.root.placesUp, place = around.settledPlace draft state before ∧
      state.notes.binding? before.node.id = some binding ∧
        before.node.shape.family = .expression := by
  have known := (Surroundings.binding?_settle _).symm.trans noted
  have role := keeps.binds _ _ known
  rcases Surroundings.mem_placesUp_settle listed with ⟨before, placed, rfl⟩ | ⟨entry, owed, same, _⟩
  · have id : (around.settledPlace draft state before).node.id = before.node.id :=
      Surroundings.id_settledNode around draft state before.node
    refine ⟨before, placed, rfl, id ▸ known, ?_⟩
    rw [id, fits.tree.role before.node (Node.node_mem_of_mem_placesUp placed)] at role
    cases family : before.node.shape.family <;> rw [family] at role <;>
      first | rfl | cases role
  · obtain ⟨type, _, among⟩ := List.mem_flatMap.1 owed
    have large : state.fresh ≤ entry.1.index := (Surroundings.newFields_cases knows among).2.1
    rw [← same, fits.later _ large] at role
    cases role

namespace ResolutionState.Accounts

variable {seen : List Place}

theorem written (accounts : state.Accounts around seen) (layers : state.root.InLayers) {type : Node}
    (inside : type ∈ state.root.descendants) (isType : type.shape.isType) :
    Surroundings.WrittenType type := by
  have family : type.shape.family = .type := by
    rwa [Shape.isType_eq, beq_iff_eq] at isType
  have notLocal (member : Node) (listed : member ∈ type.children) :
      member.shape.family ≠ .localVar := by
    have held := (layers type inside).parts member listed
    intro isLocal
    rw [family, isLocal] at held
    exact nomatch held
  refine ⟨isType, notLocal, fun member listed origin isOrigin => ?_⟩
  have written := accounts.mirrors.written member
    (Node.mem_descendants_trans (Node.child_mem_descendants listed) inside) (notLocal member listed)
  cases shape : member.shape with
  | field decl =>
    rw [shape] at isOrigin written
    obtain rfl := Option.some.inj isOrigin
    exact eq_of_beq written
  | _ =>
    rw [shape] at isOrigin
    exact nomatch isOrigin

/-- A member that nested types use is public in the settled tree. -/
theorem shown (accounts : state.Accounts around seen) (layers : state.root.InLayers) (draft : Draft)
    {type member : Node} (inside : type ∈ state.root.descendants) (isType : type.shape.isType)
    (listed : member ∈ type.children) (promoted : .promoted member.id ∈ state.obligations) :
    (around.settledNode draft state member).shape.visibility? = some .everyone := by
  have written := (accounts.written layers inside isType)
  by_cases nested : member.shape.isType
  · refine Surroundings.shown_settledNode_of_isType around draft state nested ?_
    have shown := accounts.mirrors.written member
      (Node.mem_descendants_trans (Node.child_mem_descendants listed) inside)
      (written.members member listed)
    obtain ⟨decl, shape⟩ := (Shape.isType_iff _).1 nested
    rw [shape] at shown ⊢
    intro owner
    rw [Shape.isWritten, Option.some.inj owner] at shown
    cases shown
  · refine Surroundings.shown_settledNode around draft state promoted nested ?_
    have held := (layers type inside).parts member listed
    rw [Shape.isType_eq, beq_iff_eq] at isType
    rw [isType] at held
    cases shape : member.shape <;> rw [shape] at held <;> first | rfl | cases held

theorem mem_children_of_settledNode (fits : state.Fits around roles) (knows : around.KnowsOuter)
    {draft : Draft} {type : Node} {marks : TypeMarks} {made : List Node}
    (opens : around.Opens draft state type marks made) {decl : NodeId}
    (old : ∃ source ∈ state.root.descendants, source.id = decl)
    (declares : decl ∈ (around.settledNode draft state type).children.map Node.id) :
    decl ∈ type.children.map Node.id := by
  obtain ⟨member, listed, rfl⟩ := List.mem_map.1 declares
  rw [opens.children] at listed
  rcases List.mem_append.1 listed with isMade | isOld
  · obtain ⟨owed, _, _, paid⟩ := opens.paid member isMade
    have large : state.fresh ≤ member.id.index := (Surroundings.newFields_cases knows paid).2.1
    obtain ⟨source, among, same⟩ := old
    have small := fits.tree.small source among
    rw [same] at small
    exact absurd small (Nat.not_lt.2 large)
  · obtain ⟨source, isSource, rfl⟩ := List.mem_map.1 isOld
    rw [Surroundings.id_settledNode]
    exact List.mem_map_of_mem isSource

theorem refersOut (accounts : state.Accounts around seen) (fits : state.Fits around roles)
    (layers : state.root.InLayers) {draft : Draft} {place : Place} {outer : Node}
    {marks : TypeMarks} {made : List Node}
    (opens : around.Opens draft state place.node marks made) (placed : place ∈ state.root.placesUp)
    (isType : place.node.shape.isType) (isOuter : place.type? = some outer)
    (outerInside : outer ∈ state.root.descendants) (outerIsType : outer.shape.isType)
    (owes : .outer place.node.id ∈ state.obligations) :
    (around.settle draft state).RefersOut around.script (around.settledNode draft state place.node)
      (around.settledNode draft state outer) := by
  have inside := Node.node_mem_of_mem_placesUp placed
  have known := accounts.mirrors.outer place placed isType
  rw [isOuter] at known
  have named := accounts.mirrors.named outer outerInside outerIsType
  obtain ⟨name, isName⟩ : ∃ name, outer.declName? = some name := by
    obtain ⟨decl, shape⟩ := (Shape.isType_iff _).1 outerIsType
    exact ⟨decl.name, by rw [Node.declName?, shape]; rfl⟩
  rw [isName] at named
  exact opens.refersOut (accounts.written layers inside isType) fits inside known isName named owes

/-- Where all types on the way to a member owe a reference to the one around them, they have it in
the settled tree. -/
theorem leadsTo (accounts : state.Accounts around seen) (fits : state.Fits around roles)
    (knows : around.KnowsOuter) (layers : state.root.InLayers) (draft : Draft) {decl : NodeId}
    (promoted : .promoted decl ∈ state.obligations) {types : List Node}
    (inside : ∀ type ∈ types, type ∈ state.root.descendants ∧ type.shape.isType)
    (chain : types.IsChain fun type outer =>
      ∃ other ∈ state.root.placesUp, other.node = type ∧ other.type? = some outer)
    (declared : ∃ type ∈ types, decl ∈ type.children.map Node.id)
    (owes : ∀ type ∈ types.takeWhile fun type => !type.children.any (·.id == decl),
      .outer type.id ∈ state.obligations) :
    (around.settle draft state).LeadsTo around.script decl
      (types.map (around.settledNode draft state)) := by
  -- From the innermost type outwards: the first that declares the member ends the way, and each
  -- before it is left through the reference that it owes.
  induction types with
  | nil =>
    obtain ⟨_, listed, _⟩ := declared
    exact nomatch listed
  | cons type rest ih =>
    obtain ⟨lies, isType⟩ := inside type List.mem_cons_self
    have written := accounts.written layers lies isType
    obtain ⟨marks, made, opens⟩ := written.opens around draft state
    by_cases declares : decl ∈ type.children.map Node.id
    · obtain ⟨member, listed, rfl⟩ := List.mem_map.1 declares
      have settled : around.settledNode draft state member ∈
          (around.settledNode draft state type).children := by
        rw [opens.children]
        exact List.mem_append_right _ (List.mem_map_of_mem listed)
      exact .owner settled (Surroundings.id_settledNode around draft state member)
        (accounts.shown layers draft lies isType listed promoted)
    · have passes : (!type.children.any (·.id == decl)) = true := by
        rw [Bool.not_eq_true', List.any_eq_false]
        intro member listed same
        exact declares (List.mem_map.2 ⟨member, listed, eq_of_beq same⟩)
      rw [List.takeWhile_cons, if_pos passes] at owes
      have later : ∃ type ∈ rest, decl ∈ type.children.map Node.id := by
        obtain ⟨other, listed, among⟩ := declared
        rcases List.mem_cons.1 listed with rfl | listed
        · exact absurd among declares
        · exact ⟨other, listed, among⟩
      have old : ∃ source ∈ state.root.descendants, source.id = decl := by
        obtain ⟨other, listed, among⟩ := later
        obtain ⟨source, isSource, same⟩ := List.mem_map.1 among
        exact ⟨source, Node.mem_descendants_trans (Node.child_mem_descendants isSource)
          (inside other (List.mem_cons_of_mem _ listed)).1, same⟩
      have leads := ih (fun other listed => inside other (List.mem_cons_of_mem _ listed)) chain.tail
        later fun other listed => owes other (List.mem_cons_of_mem _ listed)
      cases rest with
      | nil =>
        obtain ⟨_, listed, _⟩ := later
        exact nomatch listed
      | cons outer further =>
        obtain ⟨place, placed, rfl, isOuter⟩ := chain.rel
        obtain ⟨outerLies, outerIsType⟩ := inside outer (List.mem_cons_of_mem _ List.mem_cons_self)
        refine .outwards ?_ (accounts.refersOut fits layers opens placed isType isOuter outerLies
          outerIsType (owes _ List.mem_cons_self)) leads
        intro member listed same
        exact declares (mem_children_of_settledNode fits knows opens old
          (List.mem_map.2 ⟨member, listed, same⟩))

theorem exists_type (accounts : state.Accounts around seen) {place : Place}
    (placed : place ∈ state.root.placesUp) (family : place.node.shape.family = .expression) :
    ∃ type, place.type? = some type ∧ type ∈ state.root.descendants ∧ type.shape.isType := by
  obtain ⟨type, isType⟩ := Option.isSome_iff_exists.1
    (Place.type?_isSome placed accounts.mirrors.isType (by
      rw [Shape.isType_eq, family]
      decide))
  refine ⟨type, isType, Node.types_inside placed ?_⟩
  rw [Place.type?_eq_head?] at isType
  exact List.mem_of_mem_head? isType

theorem leadsTo_of_bound (accounts : state.Accounts around seen) (fits : state.Fits around roles)
    (knows : around.KnowsOuter) (layers : state.root.InLayers) (draft : Draft) {place : Place}
    (placed : place ∈ state.root.placesUp) {decl : DeclRef}
    (known : state.notes.binding? place.node.id = some (.outer decl)) :
    decl.script = around.script ∧ (around.settle draft state).LeadsTo around.script decl.node
      (around.settledPlace draft state place).types := by
  have accounted := accounts.bound place placed _ known
  obtain ⟨own, type, inTypes, name, member, found, same⟩ := accounted.outer decl rfl
  have owed := accounted.owed
  rw [Surroundings.obligationsOf, if_pos (beq_iff_eq.2 own)] at owed
  refine ⟨own, ?_⟩
  rw [Surroundings.types_settledPlace]
  refine accounts.leadsTo fits knows layers draft
    (owed _ (List.mem_append_right _ List.mem_cons_self))
    (fun type listed => Node.types_inside placed listed) (Place.types_isChain placed)
    ⟨type, inTypes, ?_⟩ fun type listed => owed _ (List.mem_append_left _ (List.mem_map_of_mem listed))
  rw [← same]
  obtain ⟨lies, isType⟩ := Node.types_inside placed inTypes
  exact accounts.mirrors.member type lies isType name member found

theorem exists_formField (accounts : state.Accounts around seen) (layers : state.root.InLayers)
    (draft : Draft) {place : Place} (placed : place ∈ state.root.placesUp)
    (family : place.node.shape.family = .expression) {binding : Binding}
    (known : state.notes.binding? place.node.id = some binding)
    (onForm : binding = .form ∨ ∃ name, binding = .formMember name) :
    ∃ type field, (around.settledPlace draft state place).type? = some type ∧
      type.fieldsFrom .formField = [field] := by
  obtain ⟨type, isType, lies, kind⟩ := accounts.exists_type placed family
  have owed : .form type.id ∈ state.obligations := by
    refine (accounts.bound place placed _ known).owed _ ?_
    rcases onForm with rfl | ⟨name, rfl⟩ <;> simp [Surroundings.obligationsOf, isType]
  have written := accounts.written layers lies kind
  obtain ⟨marks, made, opens⟩ := written.opens around draft state
  obtain ⟨field, alone⟩ := opens.exists_formField written owed
  exact ⟨_, field, by rw [Surroundings.type?_settledPlace, isType]; rfl, alone⟩

theorem exists_missingField (accounts : state.Accounts around seen) (layers : state.root.InLayers)
    (draft : Draft) {place : Place} (placed : place ∈ state.root.placesUp) (seenPlace : place ∈ seen)
    (isMissing : Surroundings.isMissing place.node) :
    ∃ type field, (around.settledPlace draft state place).type? = some type ∧
      type.fieldsFrom .missingValue = [field] := by
  obtain ⟨type, isType, lies, kind⟩ :=
    accounts.exists_type placed (Surroundings.family_of_isMissing isMissing)
  have written := accounts.written layers lies kind
  obtain ⟨marks, made, opens⟩ := written.opens around draft state
  obtain ⟨field, alone⟩ := opens.exists_missingField written
    (accounts.omitted place seenPlace isMissing type isType)
  exact ⟨_, field, by rw [Surroundings.type?_settledPlace, isType]; rfl, alone⟩

theorem madeFirst (accounts : state.Accounts around seen) (layers : state.root.InLayers)
    {draft : Draft} {type : Node} (inside : type ∈ (around.settle draft state).root.descendants)
    (isType : type.shape.isType) : type.MadeFirst := by
  obtain ⟨place, listed, rfl⟩ := Node.exists_mem_placesUp inside
  rcases Surroundings.mem_placesUp_settle listed with ⟨before, placed, rfl⟩ | ⟨_, _, _, isField⟩
  · have kind : before.node.shape.isType := by
      rw [Shape.isType_eq, ← Surroundings.family_settledNode around draft state, ← Shape.isType_eq]
      exact isType
    have written := accounts.written layers (Node.node_mem_of_mem_placesUp placed) kind
    obtain ⟨marks, made, opens⟩ := written.opens around draft state
    exact opens.madeFirst written
  · rw [Shape.isType_eq, isField] at isType
    cases isType

theorem discharged (accounts : state.Accounts around state.root.placesUp)
    (fits : state.Fits around roles) (keeps : state.Keeps roles old) (knows : around.KnowsOuter)
    (draft : Draft) : (around.settle draft state).Discharged around.script := by
  have layers := keeps.houses.layers
  refine ⟨fun place listed decl noted => ?_, fun place listed binding noted onForm => ?_,
    fun place listed shape => ?_, fun type inside isType => accounts.madeFirst layers inside isType,
    fun node inside => Surroundings.decided_settle inside⟩
  · obtain ⟨before, placed, rfl, known, -⟩ := keeps.bound_before fits knows listed noted
    exact accounts.leadsTo_of_bound fits knows layers draft placed known
  · obtain ⟨before, placed, rfl, known, family⟩ := keeps.bound_before fits knows listed noted
    exact accounts.exists_formField layers draft placed family known onForm
  · rcases Surroundings.mem_placesUp_settle listed with ⟨before, placed, rfl⟩ | ⟨_, _, _, isField⟩
    · have settled : Surroundings.isMissing (around.settledNode draft state before.node) := by
        rw [Surroundings.isMissing, show (around.settledNode draft state before.node).shape =
          .missing from shape]
      rw [Surroundings.isMissing_settledNode] at settled
      exact accounts.exists_missingField layers draft placed placed settled
    · rw [shape] at isField
      cases isField

end ResolutionState.Accounts

end Settle

section Resolve

variable {store : ScriptStore} {id : ScriptId} {script : Script} {draft : Draft}

/-- A resolved script has what its nested types, its form and the arguments that are left out ask for:
every type on the way out to a member refers to the type around it and the member is public, types that
use the form or leave out arguments have a field for that, these fields come first, and everything is
either public or private. -/
theorem ScriptStore.resolve_discharges (symbols : SymbolTable) (options : MigrationOptions)
    (cache : MemberMemo) (listed : store.get? id = some script)
    (read : script.draft? = some draft) (prepared : draft.Prepared) :
    ∃ resolved, (store.resolve symbols options cache id).store.draft? id = some resolved ∧
      resolved.Discharged id := by
  have formed := prepared.formed
  have static : (Surroundings.forScript symbols options store id script draft).Fits
      draft.root.roleOf draft.fresh := formed.surroundings_fit
  have underway : ((Surroundings.forScript symbols options store id script draft).start draft
      cache).Underway _ _ _ := formed.start_underway cache
  have starts : ((Surroundings.forScript symbols options store id script draft).start draft
      cache).Keeps _ _ := prepared.start_keeps cache
  have accounts := (prepared.start_accounts cache).sweeps underway starts static
    options.maxAttempts
  have later := (underway.sweeps static options.maxAttempts).1
  have keeps := starts.sweeps underway static options.maxAttempts
  have swept := accounts.sweep later.fits keeps static later.older true
  refine ⟨_, by rw [(resolve_eq symbols options cache listed read).1]; exact draft?_setDraft listed,
    ?_⟩
  exact swept.discharged (later.sweep static true).fits (keeps.sweep later.fits static later.older true)
    formed.knowsOuter draft

theorem ScriptStore.resolve_discharges_nested : ∃ module resolved,
    parseModule "Private total As Long\nClass Part\nSub Count()\ntotal = total + 1\nLog 1, , 2\nEnd Sub\nEnd Class\nSub Log(a, b, c)\nEnd Sub"
      "Test" = .ok module ∧
    ((ScriptStore.alone module).resolve .empty {} (.withCapacity 8) ⟨0⟩).store.draft? ⟨0⟩ =
      some resolved ∧ resolved.Discharged ⟨0⟩ := by
  obtain ⟨module, parsed⟩ : ∃ module, parseModule "Private total As Long\nClass Part\nSub Count()\ntotal = total + 1\nLog 1, , 2\nEnd Sub\nEnd Class\nSub Log(a, b, c)\nEnd Sub"
      "Test" = .ok module := exists_module (by decide +kernel)
  have prepared : (Draft.ofModule module).Prepared := .read parsed
  obtain ⟨resolved, found, discharged⟩ := ScriptStore.resolve_discharges .empty {} (.withCapacity 8)
    (show (ScriptStore.alone module).get? ⟨0⟩ = some _ from rfl) rfl prepared
  exact ⟨module, resolved, parsed, found, discharged⟩

end Resolve

end ScriptMigration
