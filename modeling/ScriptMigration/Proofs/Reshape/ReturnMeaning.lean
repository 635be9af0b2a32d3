import ScriptMigration.Proofs.Meaning.Simulation
import ScriptMigration.Proofs.Reshape.ReturnNotes

/-! Giving back values by returning them changes nothing that a function does. -/
namespace ScriptMigration

theorem Shape.mapParts_erased {α β : Type} (shape : Shape α) (f : α → β) :
    ((shape.mapParts fun part _ => f part).mapParts fun _ _ => ()) = shape.mapParts fun _ _ => () := by
  cases shape with
  | field decl | localVar decl =>
    rcases decl with ⟨name, visibility, typeName, array, init, marks, origin⟩
    cases array <;> cases init <;> simp [mapParts, mapVar]
  | property decl =>
    rcases decl with ⟨name, visibility, marks, getter, letter, setter⟩
    cases getter <;> cases letter <;> cases setter <;> rfl
  | param decl =>
    rcases decl with ⟨name, passing, marks, typeName, default⟩
    cases default <;> rfl
  | ifStmt single arms otherwise => cases otherwise <;> simp [mapParts, mapOption]
  | select subject cases otherwise =>
    have tests (test : CasePattern α) : mapTest (mapTest test fun part _ => f part) (fun _ _ => ()) =
        mapTest test fun _ _ => () := by cases test <;> rfl
    cases otherwise <;>
      simp [mapParts, mapOption, tests, List.map_attach_eq_pmap, Function.comp_def]
  | forRange counter first last step body => cases step <;> rfl
  | loop test body => cases test <;> rfl
  | returnStmt value => cases value <;> rfl
  | member object text => cases object <;> rfl
  | _ => simp [mapParts]

theorem Shape.Family.isInner_of_holds_method {family below : Family} (first : Family.method.holds family)
    (second : family.holds below) : below.isInner := by
  revert first second
  cases family <;> cases below <;> decide

namespace Node

theorem mapInType_of_inner {node : Node} (layers : node.InLayers) (inner : node.shape.family.isInner)
    (f : Node → Node) : node.mapInType f = f (node.withParts (mapInType f)) := by
  have parts {part : Node} (inside : part ∈ node.children) : partInType f part = part.mapInType f := by
    have held := Shape.Family.isInner_of_holds inner (layers.here.parts part inside)
    rw [partInType, Shape.isType_eq]
    cases family : part.shape.family <;> simp_all [Shape.Family.isInner]
  rw [mapInType_eq]
  refine congrArg (fun shape => f (node.withShape shape)) ?_
  refine congrArg node.shape.mapParts ?_
  funext part inside
  exact parts inside

theorem family_below_method {node part below : Node} (layers : node.InLayers)
    (isMethod : node.shape.family = .method) (isPart : part ∈ node.children)
    (lies : below ∈ part.descendants) :
    below.shape.family = .param ∨ below.shape.family.isInner := by
  have held := layers.here.parts part isPart
  rw [isMethod] at held
  rcases mem_descendants_cases lies with rfl | ⟨deeper, isDeeper, lies⟩
  · revert held
    cases below.shape.family <;> decide
  · have partLayers := layers.child isPart
    exact .inr ((partLayers.child isDeeper).isInner_below
      (Shape.Family.isInner_of_holds_method held (partLayers.here.parts deeper isDeeper)) below lies)

theorem mapUp_of_method {node : Node} {f : Node → Node} (layers : node.InLayers)
    (isMethod : node.shape.family = .method)
    (fixes : ∀ other : Node, other.shape.family ≠ .method → f other = other) :
    node.mapUp f = f node := by
  have same : node.rebuilt f = node := withParts_of_fixed fun part isPart =>
    mapUp_of_fixed fun below lies => fixes below fun isBelow => by
      rcases family_below_method layers isMethod isPart lies with isParam | inner
      · exact nomatch isBelow.symm.trans isParam
      · rw [isBelow] at inner
        exact nomatch inner
  rw [mapUp_eq, same]

end Node

namespace Interpretation

open ReturnValue

variable {I : Interpretation} {source target : I.Frame} {cells : I.Value → I.Value → Prop}
  {related : Node → Node → Prop} {node : Node} {g : Node → Node}

/-- A node has nothing to do with the cell. -/
structure Frame.Passes (frame : I.Frame) (node : Node) : Prop where
  name : frame.notes.binding? node.id ≠ some frame.own
  declares : frame.own ≠ .localVar node.id

theorem alike_withParts (agree : source.notes.Agree target.notes node.id)
    (left : source.Passes node) (right : target.Passes node) (plain : isExit node = false)
    (parts : ∀ part ∈ node.children, related part (g part)) :
    Sense.Alike cells related (source.sense node) (target.sense (node.withParts g)) := by
  have label : (node.withParts g).label target.notes = node.label source.notes := by
    unfold Node.label
    congr 1
    · exact Shape.mapParts_erased node.shape g
    · exact agree.binding
    · exact agree.descriptor
    · exact agree.mode
  have each : List.Forall₂ related node.children (node.withParts g).children := by
    rw [Node.children_withParts, List.forall₂_map_right_iff]
    exact List.forall₂_same.2 parts
  have work : Sense.Alike cells related (.other (node.label source.notes) node.children)
      (.other ((node.withParts g).label target.notes) (node.withParts g).children) := by
    rw [label]
    exact .other _ each
  have isLeft : source.sense node = source.plainSense node := if_neg left.name
  have isRight : target.sense (node.withParts g) = target.plainSense (node.withParts g) :=
    if_neg right.name
  rw [isLeft, isRight]
  rcases node with ⟨info, shape⟩
  cases shape with
  | literal value => exact .literal value
  | exit leave =>
    have stays : ¬ leave.leavesProcedure = true := by
      rw [show leave.leavesProcedure = false from plain]
      nofun
    have isOther : source.plainSense (.mk info (.exit leave)) =
        .other ((Node.mk info (.exit leave)).label source.notes) [] := if_neg stays
    have isOther' : target.plainSense ((Node.mk info (.exit leave)).withParts g) =
        .other (((Node.mk info (.exit leave)).withParts g).label target.notes) [] := if_neg stays
    rw [isOther, isOther']
    exact work
  | returnStmt value =>
    cases value with
    | none => exact .giveNone
    | some value => exact .give (parts value List.mem_cons_self)
  | localVar decl =>
    have isOther : source.plainSense (.mk info (.localVar decl)) =
        .other ((Node.mk info (.localVar decl)).label source.notes)
          (Node.mk info (.localVar decl)).children := if_neg left.declares
    have isOther' : target.plainSense ((Node.mk info (.localVar decl)).withParts g) =
        .other (((Node.mk info (.localVar decl)).withParts g).label target.notes)
          ((Node.mk info (.localVar decl)).withParts g).children := if_neg right.declares
    rw [isOther, isOther']
    exact work
  | block stmts =>
    refine .block ?_
    exact each
  | loop test body => cases test <;> exact work
  | _ => exact work

end Interpretation

namespace Draft

open ReturnValue Interpretation

def resultNode (notes : Notes) (ids : NewIds) (method : NodeId) (line : Nat) (name : String)
    (node : Node) : Node :=
  if isOwnName notes method node then node.withShape (.name name)
  else if isExit node then
    node.withShape (.returnStmt (some (.made (ids.atExit node.id) line (.name name))))
  else node

def defaultNode (ids : NewIds) (line : Nat) (value : Literal) (node : Node) : Node :=
  if isExit node then
    node.withShape (.returnStmt (some (.made (ids.atExit node.id) line (.literal value))))
  else node

theorem stmts_body_result (notes : Notes) (ids : NewIds) (method : Node) (decl : MethodDecl Node)
    (name : String) (type : Descriptor) :
    (ReturnValue.body notes ids method decl (.result name type)).stmts =
      variableNode ids name .returnValue decl.body.line
          (.made ids.initial method.line (.literal type.startValue)) ::
        ((decl.body.mapInType (resultNode notes ids method.id decl.body.line name)).stmts ++
          if (decl.body.mapInType (resultNode notes ids method.id decl.body.line
            name)).stmts.getLast?.any isReturn then []
          else [.made ids.final decl.body.lastLine
            (.returnStmt (some (.made ids.finalValue decl.body.line (.name name))))]) := rfl

theorem stmts_body_default (notes : Notes) (ids : NewIds) (method : Node) (decl : MethodDecl Node)
    (type : Descriptor) :
    (ReturnValue.body notes ids method decl (.default type)).stmts =
      (decl.body.mapInType (defaultNode ids method.line type.startValue)).stmts ++
        [.made ids.final decl.body.lastLine (.returnStmt
          (some (.made ids.finalValue method.line (.literal type.startValue))))] := rfl

/-- A function as it is resolved. Its name stands for the cell, and when it is left it gives back what
is in the cell. -/
def namingFrame (draft : Draft) (I : Interpretation) (method : NodeId) : I.Frame :=
  ⟨draft.notes, .returnValue method, some⟩

def returningFrame (draft : Draft) (I : Interpretation) (carrier : NodeId) : I.Frame :=
  ⟨draft.notes, .localVar carrier, fun _ => none⟩

def startValue (draft : Draft) (I : Interpretation) (method : NodeId) : I.Value :=
  I.literal ((draft.notes.descriptor? method).getD .object).startValue

variable {draft : Draft} {localName : String} {node : Node} {decl : MethodDecl Node}

theorem unowned {notes : Notes} {method : NodeId} {below : Node}
    (other : isOwnName notes method below = false) :
    notes.binding? below.id ≠ some (.returnValue method) := by
  simpa [isOwnName] using other

theorem isOwnName_withParts (notes : Notes) (method : NodeId) (g : Node → Node) (node : Node) :
    isOwnName notes method (node.withParts g) = isOwnName notes method node := rfl

theorem isReturn_withParts (g : Node → Node) (node : Node) :
    isReturn (node.withParts g) = isReturn node := by
  rcases node with ⟨info, shape⟩
  cases shape with
  | loop test body => cases test <;> rfl
  | _ => rfl

theorem isAssignedValue_withParts (g : Node → Node) (node : Node) :
    isAssignedValue (node.withParts g) = isAssignedValue node := by
  rcases node with ⟨info, shape⟩
  cases shape with
  | loop test body => cases test <;> rfl
  | _ => rfl

theorem plan_of_returns (notes : Notes) (localName : String) (node : Node)
    (returns : decl.kind.returnsValue) :
    (∃ name, plan notes localName node decl =
        .result name ((notes.descriptor? node.id).getD .object)) ∨
      plan notes localName node decl = .default ((notes.descriptor? node.id).getD .object) ∧
        ∀ below ∈ decl.body.ownDescendants, isOwnName notes node.id below = false := by
  unfold plan
  rw [if_pos returns]
  dsimp only
  split
  · exact .inl ⟨_, rfl⟩
  · rename_i unnamed
    refine .inr ⟨rfl, fun below inside => ?_⟩
    simp only [List.any_eq_true, not_exists, not_and, Bool.not_eq_true] at unnamed
    exact unnamed below inside

theorem sense_naming (draft : Draft) (I : Interpretation) {method : NodeId} {below : Node}
    (other : isOwnName draft.notes method below = false) :
    (draft.namingFrame I method).sense below = (draft.namingFrame I method).plainSense below :=
  if_neg (unowned other)

theorem sense_naming_of_exit (draft : Draft) (I : Interpretation) {method : NodeId} {below : Node}
    (other : isOwnName draft.notes method below = false) (exit : isExit below) :
    (draft.namingFrame I method).sense below = .exit := by
  rw [sense_naming draft I other]
  unfold isExit at exit
  split at exit
  · rename_i target isShape
    simp only [Frame.plainSense, isShape, exit, if_true]
  · exact nomatch exit

theorem mapUp_returnNode_method (layers : draft.root.InLayers)
    (inside : node ∈ draft.root.descendants) (shape : node.shape = .method decl) :
    node.mapUp (draft.returnNode localName) = node.withShape (.method { decl with
      body := ReturnValue.body draft.notes (newIds draft node.id) node decl
        (plan draft.notes localName node decl) }) := by
  rw [Node.mapUp_of_method (layers.below inside) (by rw [shape]; rfl) fun _ => returnNode_of_family,
    returnNode]
  simp only [shape]

theorem Grounded.owns (grounded : draft.Grounded) : ∀ node ∈ draft.root.descendants, ∀ method,
    isOwnName draft.notes method node → node.shape.family = .expression :=
  fun _ inside _ own => grounded.expression inside (eq_of_beq own)

section Function

variable (grounded : draft.Grounded) (inside : node ∈ draft.root.descendants)
  (shape : node.shape = .method decl)

include grounded inside shape

theorem Grounded.body : decl.body.InLayers ∧ decl.body.shape.family = .block := by
  exact ⟨(grounded.layers.below inside).child (Node.body_mem_children shape),
    (grounded.layers node inside).family_body shape⟩

theorem Grounded.ownDescendants_body : decl.body.ownDescendants = decl.body.descendants := by
  obtain ⟨bodyLayers, isBlock⟩ := grounded.body inside shape
  exact Node.ownDescendants_of_inner bodyLayers (by rw [isBlock]; rfl)

theorem Grounded.small_in_body {below : Node} (lies : below ∈ decl.body.descendants) :
    below.id.index < draft.fresh := by
  obtain ⟨_, stands, _⟩ := grounded.layers.stands_in_body inside shape lies
  exact grounded.small below stands.mem

theorem Grounded.mem_returnValues (localName : String) :
    node.withShape (.method { decl with
      body := ReturnValue.body draft.notes (newIds draft node.id) node decl
        (plan draft.notes localName node decl) }) ∈
      (draft.returnValues localName).1.root.descendants := by
  have isMethod : node.shape.family = .method := by rw [shape]; rfl
  obtain ⟨setting, stands⟩ := Node.exists_stands inside
  obtain ⟨new, stands', carried⟩ := (returnCarries grounded.layers grounded.owns localName).stays
    ⟨.root, .inl rfl⟩ grounded.layers.nested stands (by rw [isMethod]; decide)
  obtain ⟨_, rfl | ⟨_, _, _, inner, _⟩⟩ := carried
  · rw [← mapUp_returnNode_method grounded.layers inside shape]
    exact stands'.mem
  · rw [isMethod] at inner
    exact nomatch inner

omit shape in
theorem Grounded.unaimed (id : NodeId) :
    draft.notes.binding? id ≠ some (.localVar (newIds draft node.id).carrier) := by
  intro noted
  have small := grounded.aims noted rfl
  have large := (draft.newId_bounds (Nat.le_refl 1) (Nat.le_refl 1) (grounded.small node inside)).1
  exact absurd small (Nat.not_lt_of_le large)

theorem Grounded.new_of_lies {below : Node} (lies : below ∈ decl.body.descendants) {plane : Nat}
    {source : NodeId} (isPlane : 1 ≤ plane) (small : source.index < draft.fresh) :
    draft.newId plane source ≠ below.id := by
  exact (ne_newId isPlane small (grounded.small_in_body inside shape lies)).symm

theorem Grounded.not_mem_valuesOf {below : Node} (lies : below ∈ decl.body.descendants) :
    below.id ∉ valuesOf (newIds draft node.id) decl.body := by
  intro listed
  rcases List.mem_append.1 listed with atExit | final
  · obtain ⟨exit, among, same⟩ := List.mem_map.1 atExit
    have isBelow := Node.mem_ownDescendants (List.mem_of_mem_filter among)
    exact grounded.new_of_lies inside shape lies (by decide)
      (grounded.small_in_body inside shape isBelow) same
  · exact grounded.new_of_lies inside shape lies (by decide) (grounded.small node inside)
      (List.mem_singleton.1 final).symm

theorem Grounded.agree_of_unbound (localName : String) {below : Node}
    (lies : below ∈ decl.body.descendants)
    (unbound : below.id ∉ boundBy draft.notes (newIds draft node.id) node.id decl
      (plan draft.notes localName node decl)) :
    draft.notes.Agree (draft.returnValues localName).1.notes below.id := by
  refine Notes.Agree.trans ?_ (grounded.agree_returnValues inside shape localName
    (.inl ⟨below, lies, .inl rfl⟩))
  obtain ⟨binding, descriptor, mode⟩ := note_eq draft.notes (newIds draft node.id) node.id decl
    (plan draft.notes localName node decl) below.id
  refine ⟨by rw [binding, if_neg unbound], ?_, mode⟩
  rw [descriptor, if_neg]
  intro listed
  have small := grounded.small node inside
  unfold describedBy at listed
  split at listed
  · exact grounded.not_mem_valuesOf inside shape lies listed
  · exact nomatch listed
  · rcases List.mem_cons.1 listed with isCarrier | listed
    · exact grounded.new_of_lies inside shape lies (by decide) small isCarrier.symm
    · rcases List.mem_cons.1 listed with isInitial | listed
      · exact grounded.new_of_lies inside shape lies (by decide) small isInitial.symm
      · exact unbound listed

theorem Grounded.agree_of_lies (returns : decl.kind.returnsValue) (localName : String) {below : Node}
    (lies : below ∈ decl.body.descendants) (other : isOwnName draft.notes node.id below = false) :
    draft.notes.Agree (draft.returnValues localName).1.notes below.id := by
  refine grounded.agree_of_unbound inside shape localName lies fun listed => ?_
  rcases plan_of_returns draft.notes localName node returns with
    ⟨name, isPlan⟩ | ⟨isPlan, _⟩ <;> rw [isPlan] at listed
  · rcases List.mem_append.1 listed with isName | isValue
    · obtain ⟨same, among, id⟩ := List.mem_map.1 isName
      have own := List.of_mem_filter among
      rw [isOwnName, id] at own
      exact Bool.false_ne_true (other.symm.trans own)
    · exact grounded.not_mem_valuesOf inside shape lies isValue
  · cases listed

theorem Grounded.bound_iff (localName : String) {id : NodeId}
    (belongs : draft.Belongs node.id decl.body id) :
    (draft.returnValues localName).1.notes.binding? id =
        some (.localVar (newIds draft node.id).carrier) ↔
      id ∈ boundBy draft.notes (newIds draft node.id) node.id decl
        (plan draft.notes localName node decl) := by
  rw [(grounded.agree_returnValues inside shape localName belongs).binding, (note_eq ..).1]
  split
  · simp [*]
  · rename_i unlisted
    exact iff_of_false (grounded.unaimed inside id) unlisted

theorem Grounded.not_mem_boundBy (plan : ReturnPlan) {plane : Nat} (among : plane ∈ [1, 2, 4]) :
    draft.newId plane node.id ∉ boundBy draft.notes (newIds draft node.id) node.id decl plan := by
  have small := grounded.small node inside
  have planes : 1 ≤ plane ∧ plane ≠ 3 ∧ plane ≠ 5 := by
    simp at among
    omega
  have unnamed {nodes : List Node} (sub : nodes ⊆ decl.body.ownDescendants) :
      draft.newId plane node.id ∉ nodes.map Node.id := by
    intro listed
    obtain ⟨below, isName, same⟩ := List.mem_map.1 listed
    exact grounded.new_of_lies inside shape (Node.mem_ownDescendants (sub isName)) planes.1 small
      same.symm
  unfold boundBy
  split
  · intro listed
    rcases List.mem_append.1 listed with isName | isValue
    · exact unnamed (List.filter_subset_self _) isName
    · rcases List.mem_append.1 isValue with atExit | final
      · obtain ⟨exit, isExit, same⟩ := List.mem_map.1 atExit
        have lies := Node.mem_ownDescendants (List.mem_of_mem_filter isExit)
        exact planes.2.1
          (draft.newId_inj (grounded.small_in_body inside shape lies) small same).1.symm
      · exact planes.2.2 (draft.newId_inj small small (List.mem_singleton.1 final)).1
  · exact List.not_mem_nil
  · exact List.not_mem_nil
  · exact unnamed (List.filter_subset_self _)

theorem Grounded.each_stmt {replace : Node → Node}
    (kept : ∀ other, isOwnName draft.notes node.id other = false → isExit other = false →
      replace other = other) :
    (decl.body.mapInType replace).stmts = decl.body.stmts.map (Node.mapInType replace) ∧
      List.Forall₂ (fun old new => old ∈ decl.body.descendants ∧ new = old.mapInType replace)
        decl.body.stmts (decl.body.mapInType replace).stmts := by
  obtain ⟨bodyLayers, isBlock⟩ := grounded.body inside shape
  have unnamed : isOwnName draft.notes node.id decl.body = false := by
    by_contra own
    obtain ⟨_, stands, _⟩ := grounded.layers.stands_in_body inside shape decl.body.mem_descendants_self
    have isExpression := grounded.expression stands.mem (eq_of_beq (Bool.of_not_eq_false own))
    rw [isBlock] at isExpression
    exact nomatch isExpression
  obtain ⟨stmts, isStmts⟩ := (Shape.family_eq_block_iff _).1 isBlock
  have stays : isExit decl.body = false := by rw [isExit, isStmts]
  have each : (decl.body.mapInType replace).stmts = decl.body.stmts.map (Node.mapInType replace) := by
    rw [Node.mapInType_of_inner bodyLayers (by rw [isBlock]; rfl),
      kept (decl.body.withParts _) unnamed (by rw [isExit_withParts, stays]),
      stmts_of_block (by rw [Node.family_withParts, isBlock]), Node.children_withParts,
      stmts_of_block isBlock]
  refine ⟨each, ?_⟩
  rw [each, List.forall₂_map_right_iff, List.forall₂_same]
  intro stmt listed
  rw [stmts_of_block isBlock] at listed
  exact ⟨Node.child_mem_descendants listed, rfl⟩

section Frames

variable (localName) (I : Interpretation)

theorem Grounded.sense_returning {new : Node} (belongs : draft.Belongs node.id decl.body new.id)
    (unlisted : new.id ∉ boundBy draft.notes (newIds draft node.id) node.id decl
      (plan draft.notes localName node decl)) :
    ((draft.returnValues localName).1.returningFrame I (newIds draft node.id).carrier).sense new =
      ((draft.returnValues localName).1.returningFrame I (newIds draft node.id).carrier).plainSense
        new :=
  if_neg fun bound => unlisted ((grounded.bound_iff inside shape localName belongs).1 bound)

theorem Grounded.sense_returning_of_bound {new : Node}
    (listed : new.id ∈ boundBy draft.notes (newIds draft node.id) node.id decl
      (plan draft.notes localName node decl)) :
    ((draft.returnValues localName).1.returningFrame I (newIds draft node.id).carrier).sense new =
      .own :=
  if_pos ((grounded.bound_iff inside shape localName (belongs_of_boundBy listed)).2 listed)

variable (cells : I.Value → I.Value → Prop) (returns : decl.kind.returnsValue)

include returns

theorem Grounded.sense_returning_of_lies {below : Node} (lies : below ∈ decl.body.descendants)
    (other : isOwnName draft.notes node.id below = false) (new : Node) (same : new.id = below.id) :
    ((draft.returnValues localName).1.returningFrame I (newIds draft node.id).carrier).sense new =
      ((draft.returnValues localName).1.returningFrame I (newIds draft node.id).carrier).plainSense
        new := by
  refine if_neg fun bound => grounded.unaimed inside below.id ?_
  rw [same] at bound
  exact (grounded.agree_of_lies inside shape returns localName lies other).binding.symm.trans bound

theorem Grounded.leaving_exit {below value : Node} (lies : below ∈ decl.body.descendants)
    (other : isOwnName draft.notes node.id below = false) (exit : isExit below) (g : Node → Node)
    (yields : ∀ cell cell', cells cell cell' →
      ((draft.returnValues localName).1.returningFrame I (newIds draft node.id).carrier).Yields value
        cell' cell) :
    Leaving (draft.namingFrame I node.id)
      ((draft.returnValues localName).1.returningFrame I (newIds draft node.id).carrier) cells below
      ((below.withParts g).withShape (.returnStmt (some value))) := by
  have isRight := grounded.sense_returning_of_lies localName inside shape I returns lies other
    ((below.withParts g).withShape (.returnStmt (some value))) rfl
  intro cell cell' near
  exact ⟨some cell, leavesWith_of_exit (sense_naming_of_exit draft I other exit),
    leavesWith_of_give isRight (yields cell cell' near)⟩

theorem Grounded.simulates {replace : Node → Node}
    (own : ∀ below ∈ decl.body.descendants, isOwnName draft.notes node.id below → ∀ g, cells = Eq ∧
      ((draft.returnValues localName).1.returningFrame I (newIds draft node.id).carrier).sense
        (replace (below.withParts g)) = .own)
    (exits : ∀ below ∈ decl.body.descendants, isOwnName draft.notes node.id below = false →
      isExit below → ∀ g, Leaving (draft.namingFrame I node.id)
        ((draft.returnValues localName).1.returningFrame I (newIds draft node.id).carrier) cells below
        (replace (below.withParts g)))
    (kept : ∀ other, isOwnName draft.notes node.id other = false → isExit other = false →
      replace other = other) :
    Simulates (draft.namingFrame I node.id)
      ((draft.returnValues localName).1.returningFrame I (newIds draft node.id).carrier) cells
      fun old new => old ∈ decl.body.descendants ∧ new = old.mapInType replace := by
  rintro below _ ⟨lies, rfl⟩
  obtain ⟨bodyLayers, isBlock⟩ := grounded.body inside shape
  have inner := bodyLayers.isInner_below (by rw [isBlock]; rfl) below lies
  rw [Node.mapInType_of_inner (bodyLayers.below lies) inner]
  cases isOwn : isOwnName draft.notes node.id below with
  | true =>
    obtain ⟨equal, isRight⟩ := own below lies isOwn (Node.mapInType replace)
    rw [isRight, show (draft.namingFrame I node.id).sense below = .own from if_pos (eq_of_beq isOwn)]
    exact .inr (.own equal)
  | false =>
    cases exit : isExit below with
    | true => exact .inl (exits below lies isOwn exit _)
    | false =>
      rw [kept (below.withParts (Node.mapInType replace)) isOwn (by rw [isExit_withParts, exit])]
      have agree := grounded.agree_of_lies inside shape returns localName lies isOwn
      refine .inr (alike_withParts agree ⟨unowned isOwn, nofun⟩ ⟨?_, ?_⟩ exit
        fun part among => ⟨Node.mem_descendants_trans (Node.child_mem_descendants among) lies, rfl⟩)
      · exact fun bound => grounded.unaimed inside below.id (agree.binding.symm.trans bound)
      · exact fun same => grounded.new_of_lies inside shape lies (by decide)
          (grounded.small node inside) (Binding.localVar.inj same)

end Frames

theorem Grounded.leaves_of_last (I : Interpretation) {ids : NewIds} {line : Nat} {name : String}
    {stmt : Node} (lies : stmt ∈ decl.body.descendants)
    (isReturned : isReturn (stmt.mapInType (resultNode draft.notes ids node.id line name)))
    {world after : I.World} {cell last : I.Value} {ending : I.Ending}
    (runs : Runs (draft.namingFrame I node.id) (.node stmt .give world) cell ending after last) :
    ∃ value, ending = .leaves value := by
  obtain ⟨bodyLayers, isBlock⟩ := grounded.body inside shape
  have inner := bodyLayers.isInner_below (by rw [isBlock]; rfl) stmt lies
  rw [Node.mapInType_of_inner (bodyLayers.below lies) inner, resultNode, isOwnName_withParts,
    isExit_withParts] at isReturned
  cases own : isOwnName draft.notes node.id stmt with
  | true =>
    rw [if_pos own] at isReturned
    exact nomatch isReturned
  | false =>
    rw [if_neg (by simp [own])] at isReturned
    cases exit : isExit stmt with
    | true => exact ⟨_, ((leavesWith_of_exit (sense_naming_of_exit draft I own exit) ..).1 runs).2.1⟩
    | false =>
      rw [if_neg (by simp [exit]), isReturn_withParts] at isReturned
      unfold isReturn at isReturned
      split at isReturned
      · rename_i given isShape
        have sense : (draft.namingFrame I node.id).sense stmt = .give given := by
          rw [sense_naming draft I own, Frame.plainSense, isShape]
        exact leaves_of_give sense runs
      · exact nomatch isReturned

theorem Grounded.not_through (I : Interpretation) {ids : NewIds} {line : Nat} {name : String}
    {stmt : Node} (found : decl.body.stmts.getLast? = some stmt)
    (isReturned : isReturn (stmt.mapInType (resultNode draft.notes ids node.id line name)))
    {world after : I.World} {cell last : I.Value} :
    ¬ Runs (draft.namingFrame I node.id) (.stmts decl.body.stmts world) cell .through after last := by
  obtain ⟨early, split⟩ := List.getLast?_eq_some_iff.1 found
  have lies : stmt ∈ decl.body.descendants := by
    refine Node.child_mem_descendants ?_
    rw [← stmts_of_block (grounded.body inside shape).2, split]
    exact List.mem_append_right _ List.mem_cons_self
  rw [split]
  exact Interpretation.not_through fun runs => grounded.leaves_of_last inside shape I lies isReturned runs

section Plans

variable (localName) (I : Interpretation) (returns : decl.kind.returnsValue) {cell : I.Value}
  {world after : I.World} {outcome : I.Outcome}

include returns

theorem Grounded.finishes_default
    (isPlan : plan draft.notes localName node decl =
      .default ((draft.notes.descriptor? node.id).getD .object))
    (unnamed : ∀ below ∈ decl.body.ownDescendants, isOwnName draft.notes node.id below = false) :
    (draft.namingFrame I node.id).Finishes decl.body.stmts (draft.startValue I node.id) world outcome
        after ↔
      ((draft.returnValues localName).1.returningFrame I (newIds draft node.id).carrier).Finishes
        (ReturnValue.body draft.notes (newIds draft node.id) node decl
          (.default ((draft.notes.descriptor? node.id).getD .object))).stmts cell world outcome
        after := by
  have all := grounded.ownDescendants_body inside shape
  rw [all] at unnamed
  have unlisted (id : NodeId) : id ∉ boundBy draft.notes (newIds draft node.id) node.id decl
      (plan draft.notes localName node decl) := by
    rw [isPlan]
    exact List.not_mem_nil
  -- the cell holds its first value throughout
  have yields {id : NodeId} {line : Nat} (belongs : draft.Belongs node.id decl.body id)
      (first cell : I.Value) (near : first = draft.startValue I node.id) :
      ((draft.returnValues localName).1.returningFrame I (newIds draft node.id).carrier).Yields
        (.made id line (.literal ((draft.notes.descriptor? node.id).getD .object).startValue)) cell
        first := by
    subst near
    exact yields_of_literal (grounded.sense_returning localName inside shape I belongs (unlisted id))
  have kept (other : Node) (_ : isOwnName draft.notes node.id other = false)
      (stays : isExit other = false) : defaultNode (newIds draft node.id) node.line
        ((draft.notes.descriptor? node.id).getD .object).startValue other = other := by
    rw [defaultNode, if_neg (by simp [stays])]
  have simulates := grounded.simulates localName inside shape I
    (fun first _ => first = draft.startValue I node.id) returns
    (fun below lies own => absurd own (by simp [unnamed below lies]))
    (fun below lies other exit g => by
      rw [defaultNode, if_pos (by rw [isExit_withParts, exit])]
      exact grounded.leaving_exit localName inside shape I _ returns lies other exit g
        fun first cell near => yields (.inl ⟨below, lies, .inr rfl⟩) first cell near)
    kept
  rw [stmts_body_default]
  refine simulates.finishes_iff_return (grounded.each_stmt inside shape kept).2 rfl
    fun first cell near => ?_
  exact leavesWith_of_give
    (grounded.sense_returning localName inside shape I (.inr ⟨4, by decide, rfl⟩) (unlisted _))
    (yields (.inr ⟨5, by decide, rfl⟩) first cell near)

omit returns in
/-- The function whose value is in a new variable begins with it: the cell then holds the value that
it starts from. -/
theorem Grounded.finishes_variable {name : String} {rest : List Node} :
    ((draft.returnValues localName).1.returningFrame I (newIds draft node.id).carrier).Finishes
        (variableNode (newIds draft node.id) name .returnValue decl.body.line
          (.made (newIds draft node.id).initial node.line
            (.literal ((draft.notes.descriptor? node.id).getD .object).startValue)) :: rest)
        cell world outcome after ↔
      ((draft.returnValues localName).1.returningFrame I (newIds draft node.id).carrier).Finishes
        rest (draft.startValue I node.id) world outcome after := by
  have declares : ((draft.returnValues localName).1.returningFrame I
      (newIds draft node.id).carrier).sense (variableNode (newIds draft node.id) name .returnValue
        decl.body.line (.made (newIds draft node.id).initial node.line
          (.literal ((draft.notes.descriptor? node.id).getD .object).startValue))) =
      .declare (some (.made (newIds draft node.id).initial node.line
        (.literal ((draft.notes.descriptor? node.id).getD .object).startValue))) := by
    refine (grounded.sense_returning localName inside shape I (.inr ⟨1, by decide, rfl⟩)
      (grounded.not_mem_boundBy inside shape _ (by decide))).trans ?_
    exact if_pos rfl
  have first : ((draft.returnValues localName).1.returningFrame I
      (newIds draft node.id).carrier).Yields (.made (newIds draft node.id).initial node.line
        (.literal ((draft.notes.descriptor? node.id).getD .object).startValue)) cell
        (draft.startValue I node.id) :=
    yields_of_literal (grounded.sense_returning localName inside shape I (.inr ⟨2, by decide, rfl⟩)
      (grounded.not_mem_boundBy inside shape _ (by decide)))
  exact finishes_of_declare declares first

theorem Grounded.finishes_result {name : String}
    (isPlan : plan draft.notes localName node decl =
      .result name ((draft.notes.descriptor? node.id).getD .object)) :
    (draft.namingFrame I node.id).Finishes decl.body.stmts (draft.startValue I node.id) world outcome
        after ↔
      ((draft.returnValues localName).1.returningFrame I (newIds draft node.id).carrier).Finishes
        (ReturnValue.body draft.notes (newIds draft node.id) node decl
          (.result name ((draft.notes.descriptor? node.id).getD .object))).stmts cell world outcome
        after := by
  have all := grounded.ownDescendants_body inside shape
  have bound {id : NodeId} (listed : id ∈ (decl.body.ownDescendants.filter
      (isOwnName draft.notes node.id)).map Node.id ++ valuesOf (newIds draft node.id) decl.body) :
      id ∈ boundBy draft.notes (newIds draft node.id) node.id decl
        (plan draft.notes localName node decl) := by
    rw [isPlan]
    exact listed
  have yields {id : NodeId} {line : Nat} (listed : id ∈ valuesOf (newIds draft node.id) decl.body)
      (cell cell' : I.Value) (near : cell = cell') :
      ((draft.returnValues localName).1.returningFrame I (newIds draft node.id).carrier).Yields
        (.made id line (.name name)) cell' cell := by
    subst near
    exact yields_of_own (grounded.sense_returning_of_bound localName inside shape I
      (bound (List.mem_append_right _ listed)))
  have kept (other : Node) (isOther : isOwnName draft.notes node.id other = false)
      (stays : isExit other = false) : resultNode draft.notes (newIds draft node.id) node.id
        decl.body.line name other = other := by
    rw [resultNode, if_neg (by simp [isOther]), if_neg (by simp [stays])]
  have simulates := grounded.simulates localName inside shape I Eq returns
    (fun below lies own g => by
      rw [resultNode, isOwnName_withParts, if_pos own]
      refine ⟨rfl, grounded.sense_returning_of_bound localName inside shape I
        (bound (List.mem_append_left _ (List.mem_map.2 ⟨below, ?_, rfl⟩)))⟩
      exact List.mem_filter.2 ⟨all ▸ lies, own⟩)
    (fun below lies other exit g => by
      rw [resultNode, isOwnName_withParts, if_neg (by simp [other]), isExit_withParts, if_pos exit]
      exact grounded.leaving_exit localName inside shape I _ returns lies other exit g
        fun cell cell' near => yields (List.mem_append_left _ (List.mem_map.2
          ⟨below, List.mem_filter.2 ⟨all ▸ lies, exit⟩, rfl⟩)) cell cell' near)
    kept
  obtain ⟨each, related⟩ := grounded.each_stmt inside shape kept
  rw [stmts_body_result, grounded.finishes_variable localName inside shape I]
  split
  · rename_i isLast
    rw [List.append_nil]
    refine simulates.finishes_iff related rfl fun cell world after last => ?_
    rw [each, List.getLast?_map] at isLast
    cases found : decl.body.stmts.getLast? with
    | none =>
      rw [found] at isLast
      exact nomatch isLast
    | some stmt =>
      rw [found] at isLast
      exact grounded.not_through inside shape I found isLast
  · refine simulates.finishes_iff_return related rfl fun cell cell' near => ?_
    exact leavesWith_of_give
      (grounded.sense_returning localName inside shape I (.inr ⟨4, by decide, rfl⟩)
        (grounded.not_mem_boundBy inside shape _ (by decide)))
      (yields (List.mem_append_right _ List.mem_cons_self) cell cell' near)

end Plans

end Function

end Draft

namespace ScriptStore

open Draft ReturnValue

variable {store : ScriptStore} {id : ScriptId} {script : Script} {draft : Draft}

/-- Whatever statements and expressions do that has nothing to do with giving back a value: a resolved
function ends in the same way, and leaves the same behind, when it returns its value from a local
variable as when it assigns it to its name. -/
theorem resolve_returns (symbols : SymbolTable) (options : MigrationOptions) (cache : MemberMemo)
    (localName : String) (listed : store.get? id = some script) (read : script.draft? = some draft)
    (prepared : draft.Prepared) :
    ∃ resolved, (store.resolve symbols options cache id).store.draft? id = some resolved ∧
      ∀ node ∈ resolved.root.descendants, ∀ decl, node.shape = .method decl →
        decl.kind.returnsValue → ∃ body, node.withShape (.method { decl with body }) ∈
            (resolved.returnValues localName).1.root.descendants ∧
          ∀ (I : Interpretation) (cell : I.Value) world outcome after,
            (resolved.namingFrame I node.id).Finishes decl.body.stmts
                (resolved.startValue I node.id) world outcome after ↔
              ((resolved.returnValues localName).1.returningFrame I
                (newIds resolved node.id).carrier).Finishes body.stmts cell world outcome after := by
  have grounded : ((Surroundings.forScript symbols options store id script draft).resolveDraft draft
      cache).draft.Grounded := (prepared.resolveDraft_grounded cache rfl).1
  refine ⟨_, by rw [(resolve_eq symbols options cache listed read).1]; exact draft?_setDraft listed,
    fun node inside decl shape returns => ?_⟩
  refine ⟨_, grounded.mem_returnValues inside shape localName, fun I cell world outcome after => ?_⟩
  rcases plan_of_returns _ localName node returns with
    ⟨name, isPlan⟩ | ⟨isPlan, unnamed⟩
  · rw [isPlan]
    exact grounded.finishes_result localName inside shape I returns isPlan
  · rw [isPlan]
    exact grounded.finishes_default localName inside shape I returns isPlan unnamed

def sumText : String :=
  "Function F(n)\n  For i = 1 To n\n    F = F + i\n    If F > 9 Then Exit Function\n  Next\n"
    ++ "End Function"

theorem resolve_returns_sum : ∃ module resolved node decl body,
    parseModule sumText "Sum" = .ok module ∧
    ((ScriptStore.alone module).resolve .empty {} (.withCapacity 8) ⟨0⟩).store.draft? ⟨0⟩ =
      some resolved ∧
    node ∈ resolved.root.descendants ∧ node.shape = .method decl ∧ decl.kind.returnsValue ∧
    node.withShape (.method { decl with body }) ∈
      (resolved.returnValues "result").1.root.descendants ∧
    ∀ (I : Interpretation) (cell : I.Value) world outcome after,
      (resolved.namingFrame I node.id).Finishes decl.body.stmts (resolved.startValue I node.id) world
          outcome after ↔
        ((resolved.returnValues "result").1.returningFrame I
          (newIds resolved node.id).carrier).Finishes body.stmts cell world outcome after := by
  have reads : (parseModule sumText "Sum").toOption.any fun module =>
      module.root.children.any fun part => part.methodDecl?.any (·.kind.returnsValue) := by
    decide +kernel
  obtain ⟨module, parsed⟩ := exists_module (Option.isSome_of_any reads)
  rw [parsed] at reads
  obtain ⟨part, isPart, isMethod⟩ := List.any_eq_true.1
    (show module.root.children.any (·.methodDecl?.any (·.kind.returnsValue)) = true from reads)
  obtain ⟨old, isOld, returns⟩ := (Option.any_eq_true ..).1 isMethod
  have prepared : (Draft.ofModule module).Prepared := .read parsed
  have listed : (ScriptStore.alone module).get? ⟨0⟩ = some _ := rfl
  have has : (Draft.ofModule module).root.HasProcedure part.id old.signature :=
    ⟨part, Node.child_mem_descendants isPart, rfl, by rw [isOld]; rfl⟩
  obtain ⟨resolved, found, functions⟩ :=
    resolve_returns .empty {} (.withCapacity 8) "result" listed rfl prepared
  have isResolved := found
  rw [(resolve_eq .empty {} (.withCapacity 8) listed rfl).1, draft?_setDraft listed] at isResolved
  obtain ⟨node, inside, _, isKind⟩ := (prepared.resolveDraft_grounded (.withCapacity 8)
    (Option.some.inj isResolved)).2.procedures _ _ has
  obtain ⟨decl, isDecl, same⟩ := Option.map_eq_some_iff.1 isKind
  have shape := Node.shape_of_methodDecl? isDecl
  have returns' : decl.kind.returnsValue := by rw [(Prod.mk.inj same).1, returns]
  obtain ⟨body, changed, ends⟩ := functions node inside decl shape returns'
  exact ⟨module, resolved, node, decl, body, parsed, found, inside, shape, returns', changed, ends⟩

end ScriptStore

end ScriptMigration
