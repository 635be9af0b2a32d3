import ScriptMigration.Proofs.Grammar.Termination
import ScriptMigration.Proofs.Reshape.ReturnMeaning
import ScriptMigration.Proofs.Resolution.Naming
import ScriptMigration.Proofs.Text.Name

/-! What the new variables of procedures are called. The variable of a function has a name that no other
variable of the function has. It still hides what stands outside if the function names that so, and the
copy that a setter makes has one fixed name, whatever is named so already. -/
namespace ScriptMigration

def ReturnPlan.newName? : ReturnPlan → Option String
  | .result name _ => some name
  | .nothing (some _) => some ReturnValue.copyName
  | _ => none

structure Draft.Reserves (draft : Draft) (method : Node) (carrier : NodeId) (name : String) :
    Prop where
  alone : ∀ node ∈ method.descendants, node.variableName? = some (.of name) → node.id = carrier
  clear : ∀ node ∈ method.descendants, ∀ text ∈ node.nameText?, FoldedName.of text = .of name →
    ∀ binding ∈ draft.notes.binding? node.id, binding = .localVar carrier

/-- A name is free in a procedure but for the given nodes: no variable has it, and nothing else that
stands for anything is so spelled. -/
structure Draft.Free (draft : Draft) (method : Node) (spared : List NodeId) (name : String) :
    Prop where
  untaken : FoldedName.of name ∉ ReturnValue.takenNames method
  unused : ∀ node ∈ method.descendants, ∀ text ∈ node.nameText?, FoldedName.of text = .of name →
    ∀ binding ∈ draft.notes.binding? node.id, node.id ∈ spared

namespace ReturnValue

def reworded (renames : Node → Bool) (value : Node → Option Node) (name : String) (node : Node) :
    Node :=
  if renames node then node.withShape (.name name)
  else if isExit node then node.withShape (.returnStmt (value node))
  else node

def NamesOnly (bound : List NodeId) (node : Node) : Prop :=
  node.variableName? = none ∧ (node.nameText?.isSome → node.id ∈ bound)

/-- Nodes of a body take the name of a variable, and what is put at its exits is named so only. -/
structure Renames (bound : List NodeId) (body : Node) (renames : Node → Bool)
    (value : Node → Option Node) : Prop where
  parts : ∀ g node, renames (node.withParts g) = renames node
  leaf : ∀ node ∈ body.descendants, renames node →
    node.shape.family = .expression ∧ node.children = []
  listed : ∀ node ∈ body.descendants, renames node ↔ node.id ∈ bound
  value : ∀ node ∈ body.descendants, isExit node → ∀ g, ∀ given ∈ value (node.withParts g),
    given.children = [] ∧ NamesOnly bound given

inductive Comes (carrier : NodeId) (bound : List NodeId) (old new : Node) : Prop where
  | kept {source : Node} (lies : source ∈ old.descendants) (id : new.id = source.id)
      (declares : new.variableName? = source.variableName?)
      (text : new.nameText? = source.nameText?)
  | carrier (id : new.id = carrier) (unnamed : new.nameText? = none)
  | made (names : NamesOnly bound new)

def Leaves (bound : List NodeId) (old : Node) (new : Node) : Prop :=
  ∃ image ∈ new.descendants, image.id = old.id ∧ image.variableName? = old.variableName? ∧
    (old.id ∉ bound → image.nameText? = old.nameText?)

inductive Rewords (ids : NewIds) (bound : List NodeId) (name : String) (body : Node) : Node → Prop where
  | framed {renames : Node → Bool} {value : Node → Option Node} {origin : Origin} {line : Nat}
      {initial : Node} {last : List Node → List Node} (replaces : Renames bound body renames value)
      (first : ∀ below ∈ initial.descendants, NamesOnly bound below)
      (final : ∀ stmts, ∀ stmt ∈ last stmts, ∀ below ∈ stmt.descendants, NamesOnly bound below) :
      Rewords ids bound name body (rebuilt body (reworded renames value name)
        [variableNode ids name origin line initial] last)

variable {bound : List NodeId} {carrier : NodeId} {body node : Node} {renames : Node → Bool}
  {value : Node → Option Node} {name : String}

theorem variableName?_of_expression (isExpression : node.shape.family = .expression) :
    node.variableName? = none := by
  refine Option.eq_none_iff_forall_ne_some.2 fun name isVariable => ?_
  rcases Node.family_of_variableName? isVariable with family | family <;>
    exact nomatch isExpression.symm.trans family

theorem nameless_of_isExit (exit : isExit node) :
    node.variableName? = none ∧ node.nameText? = none := by
  unfold isExit at exit
  split at exit
  · rename_i shape
    rw [Node.variableName?, Node.nameText?, shape]
    exact ⟨rfl, rfl⟩
  · cases exit

namespace Renames

variable (replaces : Renames bound body renames value)

include replaces

theorem mapInType_cases (name : String) (layers : body.InLayers) (inner : body.shape.family.isInner)
    (lies : node ∈ body.descendants) :
    (renames node ∧ ∃ old : Node, old.id = node.id ∧
        node.mapInType (reworded renames value name) = old.withShape (.name name)) ∨
      (renames node = false ∧ isExit node ∧ ∃ g, node.mapInType (reworded renames value name) =
        (node.withParts g).withShape (.returnStmt (value (node.withParts g)))) ∨
      renames node = false ∧ isExit node = false ∧
        node.mapInType (reworded renames value name) =
          node.withParts (Node.mapInType (reworded renames value name)) := by
  rw [Node.mapInType_of_inner (layers.below lies) (layers.isInner_below inner node lies), reworded,
    replaces.parts, isExit_withParts]
  cases isNamed : renames node with
  | true => exact .inl ⟨rfl, _, rfl, rfl⟩
  | false =>
    cases exit : isExit node with
    | true => exact .inr (.inl ⟨rfl, rfl, _, rfl⟩)
    | false => exact .inr (.inr ⟨rfl, rfl, rfl⟩)

theorem comes (layers : body.InLayers) (inner : body.shape.family.isInner)
    (lies : node ∈ body.descendants) {new : Node}
    (inside : new ∈ (node.mapInType (reworded renames value name)).descendants) :
    Comes carrier bound body new := by
  induction node using Node.induction with
  | step node ih =>
    rcases replaces.mapInType_cases name layers inner lies with
      ⟨isNamed, old, same, equal⟩ | ⟨_, exit, g, equal⟩ | ⟨_, _, equal⟩ <;> rw [equal] at inside
    · rcases Node.mem_descendants_cases inside with rfl | ⟨part, isPart, _⟩
      · refine .made ⟨rfl, fun _ => ?_⟩
        exact same ▸ (replaces.listed node lies).1 isNamed
      · exact nomatch isPart
    · rcases Node.mem_descendants_cases inside with rfl | ⟨part, isPart, deeper⟩
      · exact .made ⟨rfl, fun absurd => nomatch absurd⟩
      · have given : part ∈ value (node.withParts g) := Option.mem_toList.1 isPart
        obtain ⟨bare, names⟩ := replaces.value node lies exit g part given
        rcases Node.mem_descendants_cases deeper with rfl | ⟨_, among, _⟩
        · exact .made names
        · rw [bare] at among
          exact nomatch among
    · rcases Node.mem_descendants_cases inside with rfl | ⟨part, isPart, deeper⟩
      · exact .kept lies rfl (Node.variableName?_withParts _ node) (Node.nameText?_withParts _ node)
      · rw [Node.children_withParts] at isPart
        obtain ⟨old, among, rfl⟩ := List.mem_map.1 isPart
        exact ih old among (Node.mem_descendants_trans (Node.child_mem_descendants among) lies) deeper

/-- Every node of a body is still there, and spelled as it was unless it takes the new name. -/
theorem leaves (name : String) (layers : body.InLayers) (inner : body.shape.family.isInner)
    (lies : node ∈ body.descendants) {below : Node} (deeper : below ∈ node.descendants) :
    Leaves bound below (node.mapInType (reworded renames value name)) := by
  induction node using Node.induction with
  | step node ih =>
    have cases := replaces.mapInType_cases name layers inner lies
    rcases Node.mem_descendants_cases deeper with rfl | ⟨part, isPart, further⟩
    · refine ⟨_, Node.mem_descendants_self _, ?_⟩
      rcases cases with ⟨isNamed, old, same, equal⟩ | ⟨_, exit, g, equal⟩ | ⟨_, _, equal⟩ <;> rw [equal]
      · obtain ⟨isExpression, _⟩ := replaces.leaf below lies isNamed
        exact ⟨same, (variableName?_of_expression isExpression).symm,
          fun unlisted => absurd ((replaces.listed below lies).1 isNamed) unlisted⟩
      · obtain ⟨noVariable, noName⟩ := nameless_of_isExit exit
        exact ⟨rfl, noVariable.symm, fun _ => noName.symm⟩
      · exact ⟨rfl, Node.variableName?_withParts _ below, fun _ => Node.nameText?_withParts _ below⟩
    · rcases cases with ⟨isNamed, _⟩ | ⟨_, exit, _⟩ | ⟨_, _, equal⟩
      · rw [(replaces.leaf node lies isNamed).2] at isPart
        exact nomatch isPart
      · rw [(isExit_cases exit).2.2] at isPart
        exact nomatch isPart
      · obtain ⟨image, among, image'⟩ := ih part isPart
          (Node.mem_descendants_trans (Node.child_mem_descendants isPart) lies) further
        refine ⟨image, Node.mem_descendants_of_child ?_ among, image'⟩
        rw [equal, Node.children_withParts]
        exact List.mem_map.2 ⟨part, isPart, rfl⟩

theorem mapInType_block (layers : body.InLayers) (isBlock : body.shape.family = .block) :
    (body.mapInType (reworded renames value name)).id = body.id ∧
      (body.mapInType (reworded renames value name)).stmts =
        body.children.map (Node.mapInType (reworded renames value name)) := by
  rcases replaces.mapInType_cases name layers (by rw [isBlock]; rfl) body.mem_descendants_self with
    ⟨isNamed, _⟩ | ⟨_, exit, _⟩ | ⟨_, _, equal⟩
  · exact nomatch isBlock.symm.trans (replaces.leaf body body.mem_descendants_self isNamed).1
  · exact nomatch isBlock.symm.trans (isExit_cases exit).1
  · rw [equal, stmts_of_block (by rw [Node.family_withParts, isBlock]), Node.children_withParts]
    exact ⟨rfl, rfl⟩

theorem children_rebuilt (layers : body.InLayers) (isBlock : body.shape.family = .block)
    (first : List Node) (last : List Node → List Node) :
    (rebuilt body (reworded renames value name) first last).children =
      first ++ body.children.map (Node.mapInType (reworded renames value name)) ++
        last (body.children.map (Node.mapInType (reworded renames value name))) := by
  rw [← (replaces.mapInType_block layers isBlock).2]
  rfl

end Renames

section Body

variable {ids : NewIds} {new : Node} (rewords : Rewords ids bound name body new)
  (layers : body.InLayers) (isBlock : body.shape.family = .block)

include rewords layers isBlock

theorem Rewords.comes {below : Node} (lies : below ∈ new.descendants) :
    Comes ids.carrier bound body below := by
  obtain ⟨replaces, first, final⟩ := rewords
  rcases Node.mem_descendants_cases lies with rfl | ⟨part, isPart, deeper⟩
  · exact .made ⟨rfl, fun absurd => nomatch absurd⟩
  rw [replaces.children_rebuilt layers isBlock] at isPart
  rcases List.mem_append.1 isPart with early | late
  · rcases List.mem_append.1 early with isFirst | isStmt
    · obtain rfl := List.mem_singleton.1 isFirst
      rcases Node.mem_descendants_cases deeper with rfl | ⟨given, isGiven, further⟩
      · exact .carrier rfl rfl
      · obtain rfl := List.mem_singleton.1 isGiven
        exact .made (first below further)
    · obtain ⟨stmt, listed, rfl⟩ := List.mem_map.1 isStmt
      exact replaces.comes layers (by rw [isBlock]; rfl) (Node.child_mem_descendants listed) deeper
  · exact .made (final _ part late below deeper)

theorem Rewords.leaves {below : Node} (lies : below ∈ body.descendants) :
    Leaves bound below new := by
  obtain ⟨replaces, first, final⟩ := rewords
  rcases Node.mem_descendants_cases lies with rfl | ⟨part, isPart, deeper⟩
  · obtain ⟨stmts, shape⟩ := (Shape.family_eq_block_iff _).1 isBlock
    refine ⟨_, Node.mem_descendants_self _, (replaces.mapInType_block layers isBlock).1, ?_⟩
    rw [Node.variableName?, Node.nameText?, Node.variableName?, Node.nameText?, shape]
    exact ⟨rfl, fun _ => rfl⟩
  · obtain ⟨image, among, spelt⟩ := replaces.leaves name layers (by rw [isBlock]; rfl)
      (Node.child_mem_descendants isPart) deeper
    refine ⟨image, Node.mem_descendants_of_child ?_ among, spelt⟩
    rw [replaces.children_rebuilt layers isBlock]
    exact List.mem_append_left _ (List.mem_append_right _ (List.mem_map.2 ⟨part, isPart, rfl⟩))

end Body

theorem Comes.mono {old outer new : Node} (comes : Comes carrier bound old new)
    (inside : old ∈ outer.descendants) : Comes carrier bound outer new := by
  cases comes with
  | kept lies id declares text => exact .kept (Node.mem_descendants_trans lies inside) id declares text
  | carrier id unnamed => exact .carrier id unnamed
  | made names => exact .made names

end ReturnValue

namespace Draft

open ReturnValue

variable {draft : Draft} {localName : String} {node : Node} {decl : MethodDecl Node} {name : String}
  {plan : ReturnPlan}

section Procedure

variable (grounded : draft.Grounded) (named : draft.root.Named draft.notes)
  (inside : node ∈ draft.root.descendants) (shape : node.shape = .method decl)

include grounded inside shape

include named in
theorem Grounded.renames_result (type : Descriptor) :
    Renames (boundBy draft.notes (newIds draft node.id) node.id decl (.result name type)) decl.body
      (isOwnName draft.notes node.id) fun exit =>
        some (.made ((newIds draft node.id).atExit exit.id) decl.body.line (.name name)) := by
  have all := grounded.ownDescendants_body inside shape
  refine ⟨fun _ _ => rfl, fun below lies own => ?_, fun below lies => ⟨fun own => ?_, fun listed => ?_⟩,
    fun below lies exit g given isGiven => ?_⟩
  · obtain ⟨setting, stands, _⟩ := grounded.layers.stands_in_body inside shape lies
    obtain ⟨isName, _⟩ := named stands (eq_of_beq own)
    obtain ⟨spelt, isText⟩ := Option.isSome_iff_exists.1 isName
    rw [Node.children, Node.shape_of_nameText? isText]
    exact ⟨rfl, rfl⟩
  · exact List.mem_append_left _ (List.mem_map.2 ⟨below, List.mem_filter.2 ⟨all ▸ lies, own⟩, rfl⟩)
  · rcases List.mem_append.1 listed with isName | isValue
    · obtain ⟨other, among, same⟩ := List.mem_map.1 isName
      have own : isOwnName draft.notes node.id other := List.of_mem_filter among
      rwa [isOwnName, same] at own
    · exact absurd isValue (grounded.not_mem_valuesOf inside shape lies)
  · obtain rfl := Option.some.inj isGiven
    refine ⟨rfl, rfl, fun _ => List.mem_append_right _ (List.mem_append_left _ ?_)⟩
    exact List.mem_map.2 ⟨below, List.mem_filter.2 ⟨all ▸ lies, exit⟩, rfl⟩

theorem Grounded.renames_copy (type : Descriptor) :
    Renames (boundBy draft.notes (newIds draft node.id) node.id decl (.nothing (some type))) decl.body
      isAssignedValue fun _ => none := by
  have all := grounded.ownDescendants_body inside shape
  refine ⟨isAssignedValue_withParts, fun below lies isValue => ?_,
    fun below lies => ⟨fun isValue => ?_, fun listed => ?_⟩, fun _ _ _ _ _ absurd => by cases absurd⟩
  · refine ⟨isAssignedValue_family isValue, ?_⟩
    unfold isAssignedValue at isValue
    split at isValue
    · rename_i shape
      rw [Node.children, shape]
      rfl
    · cases isValue
  · exact List.mem_map.2 ⟨below, List.mem_filter.2 ⟨all ▸ lies, isValue⟩, rfl⟩
  · obtain ⟨other, among, same⟩ := List.mem_map.1 listed
    have lies' := Node.mem_ownDescendants (List.mem_of_mem_filter among)
    obtain ⟨_, stands, _⟩ := grounded.layers.stands_in_body inside shape lies
    obtain ⟨_, stands', _⟩ := grounded.layers.stands_in_body inside shape lies'
    rw [← grounded.distinct.eq_of_id_eq stands'.mem stands.mem same]
    exact List.of_mem_filter among

include named in
theorem Grounded.rewords (isNew : plan.newName? = some name) :
    Rewords (newIds draft node.id) (boundBy draft.notes (newIds draft node.id) node.id decl plan) name
      decl.body (ReturnValue.body draft.notes (newIds draft node.id) node decl plan) := by
  cases plan with
  | result text type =>
    obtain rfl := Option.some.inj isNew
    have first : ∀ below ∈ (Node.made (newIds draft node.id).initial node.line
        (.literal type.startValue)).descendants, NamesOnly (boundBy draft.notes
          (newIds draft node.id) node.id decl (.result text type)) below :=
      Node.forall_of_bare rfl ⟨rfl, fun absurd => nomatch absurd⟩
    unfold ReturnValue.body
    refine .framed (grounded.renames_result named inside shape type) first
      fun stmts stmt isLast below lies => ?_
    split at isLast
    · exact nomatch isLast
    · obtain rfl := List.mem_singleton.1 isLast
      rcases Node.mem_descendants_cases lies with rfl | ⟨value, isValue, deeper⟩
      · exact ⟨rfl, fun absurd => nomatch absurd⟩
      · obtain rfl := List.mem_singleton.1 isValue
        refine Node.forall_of_bare rfl ⟨rfl, fun _ => ?_⟩ below deeper
        exact List.mem_append_right _ (List.mem_append_right _ List.mem_cons_self)
  | default type => exact nomatch isNew
  | nothing copied =>
    cases copied with
    | none => exact nomatch isNew
    | some type =>
      obtain rfl := Option.some.inj isNew
      have copies : (fun below => if isExit below then below.withShape (.returnStmt none)
          else if isAssignedValue below then below.withShape (.name copyName) else below) =
          reworded isAssignedValue (fun _ => none) copyName := by
        funext below
        rcases below with ⟨info, shape⟩
        cases shape <;> rfl
      have whole : ReturnValue.body draft.notes (newIds draft node.id) node decl (.nothing (some type)) =
          rebuilt decl.body (reworded isAssignedValue (fun _ => none) copyName)
            [variableNode (newIds draft node.id) copyName .valueCopy decl.body.line
              (.made (newIds draft node.id).initial decl.body.line .assignedValue)] fun _ => [] := by
        rw [← copies]
        rfl
      rw [whole]
      exact .framed (grounded.renames_copy inside shape type)
        (Node.forall_of_bare rfl ⟨rfl, fun absurd => nomatch absurd⟩) fun _ _ absurd => nomatch absurd

include named in
theorem Grounded.comes (isNew : plan.newName? = some name) {new : Node}
    (lies : new ∈ (node.withShape (.method { decl with
      body := ReturnValue.body draft.notes (newIds draft node.id) node decl plan })).descendants) :
    Comes (newIds draft node.id).carrier
      (boundBy draft.notes (newIds draft node.id) node.id decl plan) node new := by
  obtain ⟨bodyLayers, isBlock⟩ := grounded.body inside shape
  rcases Node.mem_descendants_cases lies with rfl | ⟨part, isPart, deeper⟩
  · refine .kept node.mem_descendants_self rfl ?_ ?_
    · rw [Node.variableName?, Node.variableName?, shape]
      rfl
    · rw [Node.nameText?, Node.nameText?, shape]
      rfl
  · rcases List.mem_append.1 (show part ∈ decl.params ++ [_] from isPart) with isParam | isBody
    · refine .kept (Node.mem_descendants_of_child ?_ deeper) rfl rfl rfl
      rw [Node.children, shape]
      exact List.mem_append_left _ isParam
    · obtain rfl := List.mem_singleton.1 isBody
      refine ((grounded.rewords named inside shape isNew).comes bodyLayers isBlock deeper).mono ?_
      exact Node.child_mem_descendants (Node.body_mem_children shape)

include named in
theorem Grounded.leaves (isNew : plan.newName? = some name) {below : Node}
    (lies : below ∈ node.descendants) :
    Leaves (boundBy draft.notes (newIds draft node.id) node.id decl plan) below
      (node.withShape (.method { decl with
        body := ReturnValue.body draft.notes (newIds draft node.id) node decl plan })) := by
  obtain ⟨bodyLayers, isBlock⟩ := grounded.body inside shape
  rcases Node.mem_descendants_cases lies with rfl | ⟨part, isPart, deeper⟩
  · refine ⟨_, Node.mem_descendants_self _, rfl, ?_, fun _ => ?_⟩
    · rw [Node.variableName?, Node.variableName?, shape]
      rfl
    · rw [Node.nameText?, Node.nameText?, shape]
      rfl
  · rw [Node.children, shape] at isPart
    rcases List.mem_append.1 isPart with isParam | isBody
    · exact ⟨below, Node.mem_descendants_of_child (List.mem_append_left _ isParam) deeper, rfl, rfl,
        fun _ => rfl⟩
    · obtain rfl := List.mem_singleton.1 isBody
      obtain ⟨image, among, spelt⟩ :=
        (grounded.rewords named inside shape isNew).leaves bodyLayers isBlock deeper
      exact ⟨image, Node.mem_descendants_of_child (List.mem_append_right _ List.mem_cons_self) among,
        spelt⟩

theorem Grounded.binding?_of_lies (localName : String) {below : Node}
    (lies : below ∈ node.descendants) :
    (draft.returnValues localName).1.notes.binding? below.id =
      if below.id ∈ boundBy draft.notes (newIds draft node.id) node.id decl
          (ReturnValue.plan draft.notes localName node decl) then
        some (.localVar (newIds draft node.id).carrier)
      else draft.notes.binding? below.id := by
  by_cases belongs : draft.Belongs node.id decl.body below.id
  · rw [(grounded.agree_returnValues inside shape localName belongs).binding, (note_eq ..).1]
  · rw [if_neg fun listed => belongs (belongs_of_boundBy listed)]
    refine (agree_elsewhere localName fun other among decl' shape' also => belongs ?_).binding
    have listed := Node.mem_descendants_trans lies inside
    obtain ⟨deeper, lies', same⟩ := grounded.lies_of_belongs among shape' also
      (grounded.small below listed)
    obtain ⟨_, stands', inOther⟩ := grounded.layers.stands_in_body among shape' lies'
    obtain rfl := grounded.distinct.eq_of_id_eq listed stands'.mem same
    obtain ⟨otherLayers, isBlock⟩ := grounded.body among shape'
    have inner := otherLayers.isInner_below (by rw [isBlock]; rfl) below lies'
    have differs : below ≠ node := by
      rintro rfl
      rw [shape] at inner
      exact nomatch inner
    obtain ⟨_, above⟩ := Node.exists_stands inside
    obtain ⟨_, stands, inMethod⟩ :=
      above.below_method grounded.layers (by rw [shape]; rfl) lies differs
    rw [stands.unique grounded.distinct stands' rfl, inOther] at inMethod
    obtain rfl := grounded.distinct.eq_of_id_eq among inside (Option.some.inj inMethod)
    obtain rfl := Shape.method.inj (shape.symm.trans shape')
    exact .inl ⟨below, lies', .inl rfl⟩

theorem Grounded.mem_takenNames {taken : FoldedName} :
    taken ∈ takenNames node ↔ ∃ below ∈ node.descendants, below.variableName? = some taken := by
  have typeless : ∀ below ∈ node.descendants, below.shape.family ≠ .type := by
    intro below lies isType
    rcases Node.mem_descendants_cases lies with rfl | ⟨part, isPart, deeper⟩
    · exact nomatch isType.symm.trans (congrArg Shape.family shape)
    · rcases Node.family_below_method (grounded.layers.below inside) (by rw [shape]; rfl) isPart
        deeper with isParam | inner
      · exact nomatch isType.symm.trans isParam
      · rw [isType] at inner
        exact nomatch inner
  rw [takenNames, Node.ownDescendants_of_typeless typeless]
  exact List.mem_filterMap

include named in
/-- A new variable has its name for itself exactly if the name was free in the procedure, but for the
nodes that are to stand for the variable. -/
theorem Grounded.reserves_iff (localName : String)
    (isNew : (ReturnValue.plan draft.notes localName node decl).newName? = some name) :
    (draft.returnValues localName).1.Reserves (node.withShape (.method { decl with
        body := ReturnValue.body draft.notes (newIds draft node.id) node decl
          (ReturnValue.plan draft.notes localName node decl) })) (newIds draft node.id).carrier name ↔
      draft.Free node (boundBy draft.notes (newIds draft node.id) node.id decl
        (ReturnValue.plan draft.notes localName node decl)) name := by
  constructor
  · intro reserves
    constructor
    · intro taken
      obtain ⟨below, lies, isVariable⟩ := (grounded.mem_takenNames inside shape).1 taken
      obtain ⟨image, among, same, declares, _⟩ := grounded.leaves named inside shape isNew lies
      have isCarrier := same.symm.trans (reserves.alone image among (declares.trans isVariable))
      have large := (draft.newId_bounds (Nat.le_refl 1) (Nat.le_refl 1)
        (grounded.small node inside)).1
      have small := grounded.small below (Node.mem_descendants_trans lies inside)
      rw [isCarrier] at small
      exact Nat.not_lt_of_le large small
    · intro below lies text isText same binding noted
      by_contra unlisted
      obtain ⟨image, among, id, _, spelt⟩ := grounded.leaves named inside shape isNew lies
      have kept := grounded.binding?_of_lies inside shape localName lies
      rw [if_neg unlisted, noted, ← id] at kept
      have isCarrier := reserves.clear image among text ((spelt unlisted).trans isText) same binding kept
      rw [isCarrier] at noted
      exact grounded.unaimed inside below.id noted
  · rintro ⟨untaken, unused⟩
    constructor
    · intro new lies isVariable
      cases grounded.comes named inside shape isNew lies with
      | kept lies _ declares _ =>
        exact absurd ((grounded.mem_takenNames inside shape).2
          ⟨_, lies, declares.symm.trans isVariable⟩) untaken
      | carrier id _ => exact id
      | made names => exact nomatch names.1.symm.trans isVariable
    · intro new lies text isText same binding noted
      have isCarrier {id : NodeId} (listed : id ∈ boundBy draft.notes (newIds draft node.id) node.id decl
          (ReturnValue.plan draft.notes localName node decl))
          (noted : (draft.returnValues localName).1.notes.binding? id = some binding) :
          binding = .localVar (newIds draft node.id).carrier :=
        Option.some.inj (noted.symm.trans
          ((grounded.bound_iff inside shape localName (belongs_of_boundBy listed)).2 listed))
      cases grounded.comes named inside shape isNew lies with
      | @kept source lies id _ spelt =>
        rw [id] at noted
        by_cases listed : source.id ∈ boundBy draft.notes (newIds draft node.id) node.id decl
            (ReturnValue.plan draft.notes localName node decl)
        · exact isCarrier listed noted
        · have old := grounded.binding?_of_lies inside shape localName lies
          rw [if_neg listed, noted] at old
          exact absurd (unused source lies text (spelt.symm.trans isText) same binding old.symm) listed
      | carrier _ unnamed => exact nomatch unnamed.symm.trans isText
      | made names => exact isCarrier (names.2 (Option.isSome_of_mem isText)) noted

theorem Grounded.own_or_taken (named : draft.root.Named draft.notes) {below : Node}
    (lies : below ∈ node.descendants) {text : String} (isText : below.nameText? = some text)
    {binding : Binding} (noted : draft.notes.binding? below.id = some binding)
    (aims : binding.target?.isSome) :
    binding = .returnValue node.id ∨ FoldedName.of text ∈ takenNames node := by
  obtain ⟨_, above⟩ := Node.exists_stands inside
  have differs : below ≠ node := by
    rintro rfl
    exact nomatch shape.symm.trans (Node.shape_of_nameText? isText)
  obtain ⟨_, stands, inMethod⟩ := above.below_method grounded.layers (by rw [shape]; rfl) lies differs
  have suits := named stands noted
  rw [inMethod] at suits
  have isTaken {decl : NodeId} (found : ∃ spelt ∈ below.nameText?, ∃ owner ∈ some node.id,
      draft.root.HasVariable (.of spelt) decl owner) : FoldedName.of text ∈ takenNames node := by
    obtain ⟨spelt, isSpelt, owner, isOwner, _, declared, stands', isVariable, _, inOwner⟩ := found
    obtain rfl := Option.some.inj (isText.symm.trans isSpelt)
    obtain rfl := Option.some.inj isOwner
    obtain ⟨method, among, same, _, lies'⟩ := stands'.below_of_method inOwner
    obtain rfl := grounded.distinct.eq_of_id_eq among inside same
    exact (grounded.mem_takenNames among shape).2 ⟨declared, lies', isVariable⟩
  cases binding with
  | returnValue owner => exact .inl (congrArg _ (Option.some.inj suits.2).symm)
  | localVar owner => exact .inr (isTaken suits)
  | param owner => exact .inr (isTaken suits)
  | _ => exact nomatch aims

theorem Grounded.newName?_of_assigns (localName : String) (setter : decl.kind.isSetter)
    {stmt target : Node} (lies : stmt ∈ decl.body.descendants)
    (assigns : stmt.assignTarget? = some target) (isValue : isAssignedValue target) :
    (ReturnValue.plan draft.notes localName node decl).newName? = some copyName := by
  have gives : decl.kind.returnsValue = false := by
    revert setter
    cases decl.kind <;> decide
  have copies : (decl.kind.isSetter && decl.body.ownDescendants.any
      (·.assignTarget?.any isAssignedValue)) = true := by
    rw [setter, Bool.true_and, List.any_eq_true]
    exact ⟨stmt, grounded.ownDescendants_body inside shape ▸ lies, by rw [assigns]; exact isValue⟩
  rw [ReturnValue.plan, if_neg (by simp [gives]), copied?]
  simp only [copies, if_true]
  rfl

end Procedure

theorem newName?_plan {notes : Notes}
    (isNew : (ReturnValue.plan notes localName node decl).newName? = some name) :
    name = if decl.kind.returnsValue then freshName (takenNames node) localName else copyName := by
  unfold ReturnValue.plan at isNew
  split at isNew
  · rename_i returns
    rw [if_pos returns]
    dsimp only at isNew
    split at isNew
    · exact (Option.some.inj isNew).symm
    · exact nomatch isNew
  · rename_i other
    rw [if_neg other]
    cases copied : copied? notes decl with
    | none =>
      rw [copied] at isNew
      exact nomatch isNew
    | some type =>
      rw [copied] at isNew
      exact (Option.some.inj isNew).symm

end Draft

namespace SetterValue

variable {root node stmt target param : Node} {decl : MethodDecl Node} {name : String}

theorem assignTarget?_withParts (g : Node → Node) (node : Node) :
    (node.withParts g).assignTarget? = node.assignTarget?.map g := by
  rcases node with ⟨info, shape⟩
  cases shape with
  | loop test body => cases test <;> rfl
  | _ => rfl

theorem replace_of_nameless (nameless : node.nameText? = none) : replace name node = node := by
  rw [replace, nameless]
  rfl

theorem mapInType_replace (layers : node.InLayers) (inner : node.shape.family.isInner)
    (nameless : node.nameText? = none) :
    node.mapInType (replace name) = node.withParts (Node.mapInType (replace name)) := by
  rw [Node.mapInType_of_inner layers inner,
    replace_of_nameless ((Node.nameText?_withParts ..).trans nameless)]

theorem stands_dropped (layers : root.InLayers) (isType : root.shape.family = .type)
    (inside : node ∈ root.children) (shape : node.shape = .method decl)
    (value : valueParam? decl = some param) (named : param.declName? = some name)
    (listed : stmt ∈ decl.body.children) :
    (root.mapUp dropParam).HasProcedure node.id (decl.kind, 0) ∧
      ∃ setting, (root.mapUp dropParam).Stands setting (stmt.mapInType (replace name)) ∧
        setting.method = some node.id := by
  have nodeLayers := layers.child inside
  have fixes (other : Node) (differs : other.shape.family ≠ .method) : dropParam other = other := by
    rcases dropParam_cases other with ⟨same, _⟩ | ⟨_, _, _, isMethod, _⟩
    · exact same
    · rw [isMethod] at differs
      exact absurd rfl differs
  have dropped : node.mapUp dropParam = node.withShape (.method { decl with
      params := [], body := decl.body.mapInType (replace name) }) := by
    rw [Node.mapUp_of_method nodeLayers (by rw [shape]; rfl) fixes, dropParam]
    simp only [shape, value, Option.bind_some, named]
  have isPart : node.mapUp dropParam ∈ (root.mapUp dropParam).children := by
    rw [Node.mapUp_eq, fixes _ (by rw [Node.family_rebuilt, isType]; decide), Node.children_rebuilt]
    exact List.mem_map.2 ⟨node, inside, rfl⟩
  rw [dropped] at isPart
  refine ⟨⟨_, Node.child_mem_descendants isPart, rfl, rfl⟩, ?_⟩
  have isBlock := nodeLayers.here.family_body shape
  have bodyLayers : decl.body.InLayers := nodeLayers.child (Node.body_mem_children shape)
  have inBody : stmt.mapInType (replace name) ∈
      (decl.body.mapInType (replace name)).children := by
    rw [mapInType_replace bodyLayers (by rw [isBlock]; rfl) ?_, Node.children_withParts]
    · exact List.mem_map.2 ⟨stmt, listed, rfl⟩
    · obtain ⟨stmts, isStmts⟩ := (Shape.family_eq_block_iff _).1 isBlock
      rw [Node.nameText?, isStmts]
      rfl
  refine ⟨_, ((Node.Stands.root.part isPart).part List.mem_cons_self).part inBody, ?_⟩
  rw [Node.method_setting_of_inner (by
    rw [Node.mapInType_eq, (replace_adds name).family, Node.family_withParts, isBlock]; rfl)]
  rfl

theorem plain_dropped (layers : node.InLayers) (shape : node.shape = .method decl)
    (listed : stmt ∈ decl.body.children) (holds : ∀ part ∈ stmt.children, part.shape.isExpression)
    (layers' : (stmt.mapInType (replace name)).InLayers) :
    (stmt.mapInType (replace name)).Plain ∧
      stmt.mapInType (replace name) = stmt.withParts (Node.mapInType (replace name)) := by
  have bodyLayers : decl.body.InLayers := layers.child (Node.body_mem_children shape)
  have held := bodyLayers.here.parts stmt listed
  rw [layers.here.family_body shape] at held
  have family (other : Node) :
      (other.mapInType (replace name)).shape.family = other.shape.family := by
    rw [Node.mapInType_eq, (replace_adds name).family, Node.family_withParts]
  have nameless : stmt.nameText? = none := by
    cases isText : stmt.nameText? with
    | none => rfl
    | some text =>
      rw [Node.shape_of_nameText? isText] at held
      cases held
  have same : stmt.mapInType (replace name) = stmt.withParts (Node.mapInType (replace name)) :=
    mapInType_replace (bodyLayers.child listed) (Shape.Family.isInner_of_holds rfl held) nameless
  refine ⟨.of_expressions layers' ((family stmt).symm ▸ held) fun part isPart => ?_, same⟩
  rw [same, Node.children_withParts] at isPart
  obtain ⟨old, isOld, rfl⟩ := List.mem_map.1 isPart
  rw [family]
  exact (Shape.isExpression_iff _).1 (holds old isOld)

theorem isAssignedValue_dropped (named : node.nameText? = some name) :
    ReturnValue.isAssignedValue (node.mapInType (replace name)) := by
  have renamed (g : Node → Node) : (node.withParts g).nameText?.any (sameName · name) := by
    rw [Node.nameText?_withParts, named]
    exact beq_self_eq_true (FoldedName.of name)
  rw [Node.mapInType_eq, replace, if_pos (renamed _)]
  rfl

end SetterValue

namespace ScriptStore

open Draft ReturnValue

variable {store : ScriptStore} {id : ScriptId} {script : Script} {draft : Draft}

/-- A new variable has its name for itself exactly if nothing else in the procedure is named so. The
name of a function's variable is that of no other variable, and no other is so referred to there. -/
theorem resolve_reserves (symbols : SymbolTable) (options : MigrationOptions) (cache : MemberMemo)
    (localName : String) (listed : store.get? id = some script) (read : script.draft? = some draft)
    (prepared : draft.Prepared) :
    ∃ resolved, (store.resolve symbols options cache id).store.draft? id = some resolved ∧
      ∀ node ∈ resolved.root.descendants, ∀ decl, node.shape = .method decl →
        ∀ name, (plan resolved.notes localName node decl).newName? = some name →
          (∃ body, node.withShape (.method { decl with body }) ∈
              (resolved.returnValues localName).1.root.descendants ∧
            ((resolved.returnValues localName).1.Reserves (node.withShape (.method { decl with body }))
                (newIds resolved node.id).carrier name ↔
              resolved.Free node (boundBy resolved.notes (newIds resolved node.id) node.id decl
                (plan resolved.notes localName node decl)) name)) ∧
          (decl.kind.returnsValue → FoldedName.of name ∉ takenNames node ∧
            ∀ below ∈ node.descendants, ∀ text ∈ below.nameText?, FoldedName.of text = .of name →
              ∀ binding ∈ resolved.notes.binding? below.id, binding.target?.isSome →
                binding = .returnValue node.id) := by
  have grounded : ((Surroundings.forScript symbols options store id script draft).resolveDraft draft
      cache).draft.Grounded := (prepared.resolveDraft_grounded cache rfl).1
  have named : ((Surroundings.forScript symbols options store id script draft).resolveDraft draft
      cache).draft.root.Named _ := prepared.resolveDraft_named cache rfl
  refine ⟨_, by rw [(resolve_eq symbols options cache listed read).1]; exact draft?_setDraft listed,
    fun node inside decl shape name isNew => ⟨?_, fun returns => ?_⟩⟩
  · exact ⟨_, grounded.mem_returnValues inside shape localName,
      grounded.reserves_iff named inside shape localName isNew⟩
  · have fresh : FoldedName.of name ∉ takenNames node := by
      rw [newName?_plan isNew, if_pos returns]
      exact freshName_not_mem _ _
    refine ⟨fresh, fun below lies text isText same binding noted aims => ?_⟩
    refine (grounded.own_or_taken inside shape named lies isText noted aims).resolve_right ?_
    rwa [same]

def copyText : String := "Property Let P(v)\nDim valueCopy\nv = 1\nEnd Property"

/-- The copy that the setter gets does not have its name for itself. -/
theorem resolve_reserves_copy : ∃ module resolved node decl body,
    parseModule copyText "Copy" = .ok module ∧
    (((alone module).setDraft ⟨0⟩ (Draft.ofModule module).dropValueParams.1).resolve .empty {}
      (.withCapacity 8) ⟨0⟩).store.draft? ⟨0⟩ = some resolved ∧
    node ∈ resolved.root.descendants ∧ node.shape = .method decl ∧
    (plan resolved.notes "result" node decl).newName? = some copyName ∧
    node.withShape (.method { decl with body }) ∈ (resolved.returnValues "result").1.root.descendants ∧
    ((resolved.returnValues "result").1.Reserves (node.withShape (.method { decl with body }))
        (newIds resolved node.id).carrier copyName ↔
      resolved.Free node (boundBy resolved.notes (newIds resolved node.id) node.id decl
        (plan resolved.notes "result" node decl)) copyName) ∧
    ¬ resolved.Free node (boundBy resolved.notes (newIds resolved node.id) node.id decl
      (plan resolved.notes "result" node decl)) copyName := by
  have reads : (parseModule copyText "Copy").toOption.any fun module =>
      module.root.children.any fun part => part.methodDecl?.any fun decl =>
        (SetterValue.valueParam? decl).any (·.declName? == some "v") &&
          (decl.body.children.any (fun stmt => stmt.variableName? == some (.of copyName) &&
            stmt.children.all (·.shape.isExpression)) &&
          decl.body.children.any fun stmt => stmt.assignTarget?.any (·.nameText? == some "v") &&
            stmt.children.all (·.shape.isExpression)) := by
    decide +kernel
  obtain ⟨module, parsed⟩ := exists_module (Option.isSome_of_any reads)
  rw [parsed] at reads
  obtain ⟨part, isPart, isMethod⟩ := List.any_eq_true.1
    (show module.root.children.any _ = true from reads)
  obtain ⟨old, isOld, kept⟩ := (Option.any_eq_true ..).1 isMethod
  simp only [Bool.and_eq_true, List.any_eq_true, List.all_eq_true, Option.any_eq_true, beq_iff_eq]
    at kept
  obtain ⟨⟨param, isValue, isParam⟩, ⟨dim, isDim, isVariable, plainDim⟩, assign, isAssign,
    ⟨target, isTarget, isText⟩, plainAssign⟩ := kept
  have prepared : (Draft.ofModule module).dropValueParams.1.Prepared := .dropValueParams (.read parsed)
  have layers : module.root.InLayers := (Draft.Prepared.read parsed).layered.layers
  have isType : module.root.shape.family = .type :=
    eq_of_beq ((Shape.isType_eq _).symm.trans (parseModule_isType parsed))
  have shape := Node.shape_of_methodDecl? isOld
  have partLayers := layers.child isPart
  obtain ⟨has, settingDim, standsDim, inDim⟩ :=
    SetterValue.stands_dropped layers isType isPart shape isValue isParam isDim
  obtain ⟨_, settingAssign, standsAssign, inAssign⟩ :=
    SetterValue.stands_dropped layers isType isPart shape isValue isParam isAssign
  have dropped : (module.root.mapUp SetterValue.dropParam).InLayers := prepared.layered.layers
  obtain ⟨isPlainDim, sameDim⟩ := SetterValue.plain_dropped partLayers shape isDim plainDim
    (dropped.below standsDim.mem)
  obtain ⟨isPlainAssign, sameAssign⟩ := SetterValue.plain_dropped partLayers shape isAssign plainAssign
    (dropped.below standsAssign.mem)
  have listed : ((alone module).setDraft ⟨0⟩ (Draft.ofModule module).dropValueParams.1).get? ⟨0⟩ =
    some _ := rfl
  obtain ⟨resolved, found, reserves⟩ :=
    resolve_reserves .empty {} (.withCapacity 8) "result" listed rfl prepared
  have isResolved := found
  rw [(resolve_eq .empty {} (.withCapacity 8) listed rfl).1, draft?_setDraft listed] at isResolved
  obtain ⟨grounded, houses⟩ :=
    prepared.resolveDraft_grounded (.withCapacity 8) (Option.some.inj isResolved)
  obtain ⟨node, inside, same, isKind⟩ := houses.procedures _ _ has
  obtain ⟨decl, isDecl, sameKind⟩ := Option.map_eq_some_iff.1 isKind
  have isNode := Node.shape_of_methodDecl? isDecl
  have lies {setting : Setting} {stmt : Node}
      (stands : (module.root.mapUp SetterValue.dropParam).Stands setting stmt)
      (inMethod : setting.method = some part.id) (plain : stmt.Plain) : stmt ∈ node.descendants := by
    obtain ⟨method, among, isId, _, lies⟩ :=
      (houses.stmts _ _ stands plain).below_of_method inMethod
    rwa [grounded.distinct.eq_of_id_eq among inside (isId.trans same.symm)] at lies
  have whole : node.children = [decl.body] := by
    rw [Node.children, isNode, Shape.children, List.eq_nil_of_length_eq_zero (Prod.mk.inj sameKind).2]
    rfl
  have inBody : assign.mapInType (SetterValue.replace "v") ∈ decl.body.descendants := by
    rcases Node.mem_descendants_cases (lies standsAssign inAssign isPlainAssign) with
      same | ⟨part, among, deeper⟩
    · have inner := (isPlainAssign.inner _ (Node.mem_descendants_self _)).1
      rw [same, isNode] at inner
      cases inner
    · rw [whole] at among
      rwa [List.mem_singleton.1 among] at deeper
  have assigns : (assign.mapInType (SetterValue.replace "v")).assignTarget? =
      some (target.mapInType (SetterValue.replace "v")) := by
    rw [sameAssign, SetterValue.assignTarget?_withParts, isTarget]
    rfl
  have isNew : (plan resolved.notes "result" node decl).newName? = some copyName :=
    grounded.newName?_of_assigns inside isNode "result"
      (by rw [(Prod.mk.inj sameKind).1]; exact (SetterValue.valueParam?_eq_some isValue).2) inBody
      assigns (SetterValue.isAssignedValue_dropped isText)
  obtain ⟨⟨body, changed, exactly⟩, _⟩ := reserves node inside decl isNode copyName isNew
  refine ⟨module, resolved, node, decl, body, parsed, found, inside, isNode, isNew, changed, exactly,
    fun free => free.untaken ?_⟩
  refine (grounded.mem_takenNames inside isNode).2 ⟨_, lies standsDim inDim isPlainDim, ?_⟩
  rw [sameDim, Node.variableName?_withParts, isVariable]

end ScriptStore

end ScriptMigration
