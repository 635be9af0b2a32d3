import ScriptMigration.Proofs.Draft.References
import ScriptMigration.Proofs.Reshape.ReturnValue
import ScriptMigration.Proofs.Resolution.Start

/-! Giving back values by returning them keeps what names stand for. What is not an expression stays
where it stood, the new nodes of a procedure stand in its body, and a name that stood for the value of
the procedure stands for the new variable there. -/
namespace ScriptMigration

def ReturnPlan.declares : ReturnPlan → Bool
  | .result .. | .nothing (some _) => true
  | _ => false

namespace ReturnValue

variable {notes : Notes} {method : NodeId} {ids : NewIds} {replace : Node → Node}

/-- A map of the nodes of a body that keeps what they are. Of the expressions it changes only those
that stand for the value of the procedure, which become names. Values are given to statements only. -/
def Retains (notes : Notes) (method : NodeId) (ids : NewIds) (replace : Node → Node) : Prop :=
  ∀ node : Node, (isOwnName notes method node → node.shape.family = .expression) →
    replace node = node ∨ ∃ shape, replace node = node.withShape shape ∧
      shape.family = node.shape.family ∧
      (node.shape.family ≠ .expression → node.children = []) ∧
      (node.shape.family = .expression → (isOwnName notes method node ∨ isAssignedValue node) ∧
        ∃ text, shape = .name text) ∧
      (shape.children = [] ∨ node.shape.family = .statement ∧ ∃ value, shape.children = [value] ∧
        value.children = [] ∧ value.shape.family = .expression ∧ value.id = ids.atExit node.id)

/-- Nodes that a plan puts around the statements of a body: declarations and statements, each over a
value. -/
def Surrounds (ids : NewIds) (nodes : List Node) : Prop :=
  ∀ node ∈ nodes, (node.shape.family = .localVar ∨ node.shape.family = .statement) ∧
    (node.id = ids.carrier ∨ node.id = ids.final) ∧ ∃ value, node.children = [value] ∧
      value.children = [] ∧ value.shape.family = .expression ∧
      (value.id = ids.initial ∨ value.id = ids.finalValue)

theorem isExit_cases {node : Node} (exit : isExit node) :
    node.shape.family = .statement ∧ node.shape.family ≠ .expression ∧ node.children = [] := by
  unfold isExit at exit
  split at exit
  · rename_i shape
    rw [Node.children, shape]
    exact ⟨rfl, (fun absurd => by cases absurd), rfl⟩
  · cases exit

theorem isAssignedValue_family {node : Node} (isValue : isAssignedValue node) :
    node.shape.family = .expression := by
  unfold isAssignedValue at isValue
  split at isValue
  · rename_i shape
    rw [shape]
    rfl
  · exact nomatch isValue

theorem surrounds_nil : Surrounds ids [] := fun _ absurd => nomatch absurd

theorem surrounds_variable (name : String) (origin : Origin) (line : Nat) {initial : Node}
    (bare : initial.children = []) (family : initial.shape.family = .expression)
    (named : initial.id = ids.initial) :
    Surrounds ids [variableNode ids name origin line initial] := by
  intro node listed
  rw [List.mem_singleton.1 listed]
  exact ⟨.inl rfl, .inl rfl, initial, rfl, bare, family, .inl named⟩

theorem surrounds_return (line : Nat) {value : Node} (bare : value.children = [])
    (family : value.shape.family = .expression) (named : value.id = ids.finalValue) :
    Surrounds ids [.made ids.final line (.returnStmt (some value))] := by
  intro node listed
  rw [List.mem_singleton.1 listed]
  exact ⟨.inr rfl, .inr rfl, value, rfl, bare, family, .inr named⟩

theorem Surrounds.append {left right : List Node} (first : Surrounds ids left)
    (second : Surrounds ids right) : Surrounds ids (left ++ right) :=
  fun node listed => (List.mem_append.1 listed).elim (first node) (second node)

inductive Refits (notes : Notes) (method : NodeId) (ids : NewIds) (declares : Bool) (body : Node) :
    Node → Prop where
  | framed {replace : Node → Node} {first : List Node} {last : List Node → List Node}
      (retains : Retains notes method ids replace)
      (surrounds : ∀ stmts, Surrounds ids (first ++ last stmts))
      (declared : declares → ∃ node ∈ first, node.shape.family = .localVar ∧ node.id = ids.carrier) :
      Refits notes method ids declares body (rebuilt body replace first last)

theorem body_refits (notes : Notes) (ids : NewIds) (method : Node) (decl : MethodDecl Node)
    (plan : ReturnPlan) : Refits notes method.id ids plan.declares decl.body
      (body notes ids method decl plan) := by
  cases plan with
  | result name type =>
    unfold body
    refine .framed (fun node owns => ?_) (fun stmts => ?_) fun _ => ?_
    · split
      · rename_i own
        exact .inr ⟨_, rfl, (owns own).symm, fun differs => absurd (owns own) differs,
          fun _ => ⟨.inl own, name, rfl⟩, .inl rfl⟩
      · split
        · rename_i exit
          obtain ⟨isStmt, unlike, bare⟩ := isExit_cases exit
          exact .inr ⟨_, rfl, isStmt.symm, fun _ => bare, fun other => absurd other unlike,
            .inr ⟨isStmt, _, rfl, rfl, rfl, rfl⟩⟩
        · exact .inl rfl
    · refine (surrounds_variable _ _ _ rfl rfl rfl).append ?_
      split
      · exact surrounds_nil
      · exact surrounds_return _ rfl rfl rfl
    · exact ⟨_, List.mem_cons_self, rfl, rfl⟩
  | default type =>
    unfold body
    refine .framed (fun node owns => ?_) (fun stmts => surrounds_return _ rfl rfl rfl)
      fun declares => nomatch declares
    split
    · rename_i exit
      obtain ⟨isStmt, unlike, bare⟩ := isExit_cases exit
      exact .inr ⟨_, rfl, isStmt.symm, fun _ => bare, fun other => absurd other unlike,
        .inr ⟨isStmt, _, rfl, rfl, rfl, rfl⟩⟩
    · exact .inl rfl
  | nothing copied =>
    unfold body
    refine .framed (fun node owns => ?_) (fun stmts => ?_) fun declares => ?_
    · split
      · rename_i exit
        obtain ⟨isStmt, unlike, bare⟩ := isExit_cases exit
        exact .inr ⟨_, rfl, isStmt.symm, fun _ => bare, fun other => absurd other unlike, .inl rfl⟩
      · split
        · rename_i copies
          have isValue := (Bool.and_eq_true_iff.1 copies).2
          have family := isAssignedValue_family isValue
          exact .inr ⟨_, rfl, family.symm, fun differs => absurd family differs,
            fun _ => ⟨.inr isValue, copyName, rfl⟩, .inl rfl⟩
        · exact .inl rfl
    · rw [List.append_nil]
      split
      · exact surrounds_variable _ _ _ rfl rfl rfl
      · exact surrounds_nil
    · cases copied with
      | none => exact nomatch declares
      | some type => exact ⟨_, List.mem_cons_self, rfl, rfl⟩

theorem declares_plan (notes : Notes) (localName : String) {node other : Node}
    {decl decl' : MethodDecl Node} (id : node.id = other.id) (kind : decl.kind = decl'.kind)
    (body : decl.body = decl'.body) : (plan notes localName node decl).declares =
      (plan notes localName other decl').declares := by
  unfold plan copied?
  rw [id, kind, body]
  split
  · dsimp only
    split <;> rfl
  · rfl

theorem Retains.children_mapInType (retains : Retains notes method ids replace) {node : Node}
    (layers : node.InLayers) (inner : node.shape.family.isInner)
    (owns : isOwnName notes method node → node.shape.family = .expression) :
    (node.mapInType replace).id = node.id ∧
    (node.mapInType replace).shape.family = node.shape.family ∧
    (node.shape.family ≠ .expression →
      ∀ part ∈ node.children, part.mapInType replace ∈ (node.mapInType replace).children) ∧
    ∀ part' ∈ (node.mapInType replace).children,
      (∃ part ∈ node.children, part' = part.mapInType replace) ∨
        node.shape.family = .statement ∧ part'.children = [] ∧
          part'.shape.family = .expression ∧ part'.id = ids.atExit node.id := by
  have parts {part : Node} (inside : part ∈ node.children) :
      Node.partInType replace part = part.mapInType replace := by
    have held := Shape.Family.isInner_of_holds inner (layers.here.parts part inside)
    rw [Node.partInType, Shape.isType_eq]
    cases family : part.shape.family <;> simp_all [Shape.Family.isInner]
  have children : (node.withParts (Node.partInType replace)).children =
      node.children.map (Node.mapInType replace) := by
    rw [Node.children_withParts]
    exact List.map_congr_left fun part inside => parts inside
  rw [Node.mapInType_eq]
  rcases retains (node.withParts (Node.partInType replace)) (by
    rw [Node.family_withParts]
    exact owns) with same | ⟨shape, new, family, bare, _, values⟩
  · rw [same, children]
    refine ⟨rfl, Node.family_withParts _ _, fun _ part inside => List.mem_map.2 ⟨part, inside, rfl⟩,
      fun part' inside => ?_⟩
    obtain ⟨part, among, rfl⟩ := List.mem_map.1 inside
    exact .inl ⟨part, among, rfl⟩
  · rw [new]
    rw [Node.family_withParts] at family bare values
    refine ⟨rfl, family, fun differs part inside => ?_, fun part' inside => ?_⟩
    · have none' := bare differs
      rw [children, List.map_eq_nil_iff] at none'
      rw [none'] at inside
      cases inside
    · rcases values with empty | ⟨isStmt, value, only, valueBare, isValue, named⟩
      · rw [Node.children] at inside
        have none : part' ∈ [] := empty ▸ inside
        cases none
      · have isPart : part' ∈ shape.children := inside
        rw [only, List.mem_singleton] at isPart
        subst isPart
        exact .inr ⟨isStmt, valueBare, isValue, named⟩

theorem stmts_of_block {node : Node} (isBlock : node.shape.family = .block) :
    node.stmts = node.children := by
  obtain ⟨stmts, shape⟩ := (Shape.family_eq_block_iff _).1 isBlock
  rw [Node.stmts, Node.children, shape]
  rfl

theorem children_rebuilt {body : Node} (first : List Node) (last : List Node → List Node)
    (isBlock : (body.mapInType replace).shape.family = .block) :
    ∃ stmts, (rebuilt body replace first last).children =
      first ++ (body.mapInType replace).children ++ last stmts := by
  refine ⟨(body.mapInType replace).stmts, ?_⟩
  rw [← stmts_of_block isBlock]
  rfl

end ReturnValue

namespace Draft

open ReturnValue

def NewFor (draft : Draft) (method : NodeId) (node : Node) : Prop :=
  (∃ plane ∈ [1, 4], node.id = draft.newId plane method) ∨ node.shape.family = .expression ∧
    ((∃ plane ∈ [2, 5], node.id = draft.newId plane method) ∨ ∃ setting exit,
      draft.root.Stands setting exit ∧ setting.method = some method ∧ node.id = draft.newId 3 exit.id)

/-- What becomes of a node when procedures give back their values: most are kept, those in a body may
be replaced, and a body gets further statements. -/
def ReturnCarried (draft : Draft) (localName : String) (setting : Setting) (old new : Node) : Prop :=
  draft.root.Stands setting old ∧ (new = old.mapUp (draft.returnNode localName) ∨
    ∃ method replace, setting.method = some method ∧ old.shape.family.isInner ∧
      Retains draft.notes method (newIds draft method) replace ∧
      (new = old.mapInType replace ∨ old.shape.family = .block ∧ ∃ first last,
        (∀ stmts, Surrounds (newIds draft method) (first ++ last stmts)) ∧
        new = rebuilt old replace first last))

structure MadeFor (draft : Draft) (setting : Setting) (method : NodeId) (node : Node) : Prop where
  inside : setting.method = some method
  owner : ∃ owner ∈ draft.root.descendants, owner.id = method
  new : draft.NewFor method node
  inner : node.shape.family.isInner
  bare : node.shape.family = .expression → node.children = []
  held : ∀ family ∈ setting.parent, family.holds node.shape.family
  parts : ∀ part ∈ node.children, part.children = [] ∧ node.shape.family.holds part.shape.family ∧
    draft.NewFor method part

variable {draft : Draft} {localName : String} {node : Node}

theorem returnNode_of_family (differs : node.shape.family ≠ .method) :
    draft.returnNode localName node = node := by
  unfold returnNode
  split
  · rename_i shape
    rw [shape] at differs
    exact absurd rfl differs
  · rfl

theorem id_returnNode : (draft.returnNode localName node).id = node.id := by
  rcases draft.returnNode_cases localName node with ⟨same, _⟩ | ⟨decl, new, _, _, changed⟩
  · rw [same]
  · rw [changed]
    rfl

theorem family_returnNode : (draft.returnNode localName node).shape.family = node.shape.family := by
  rcases draft.returnNode_cases localName node with ⟨same, _⟩ | ⟨decl, new, shape, _, changed⟩
  · rw [same]
  · rw [changed, shape]
    rfl

theorem children_mapUp_method (layers : draft.root.InLayers) (inside : node ∈ draft.root.descendants)
    {decl : MethodDecl Node} (shape : node.shape = .method decl) : ∃ new,
      Refits draft.notes node.id (newIds draft node.id)
        (plan draft.notes localName node decl).declares decl.body new ∧
      (node.mapUp (draft.returnNode localName)).children =
        decl.params.map (Node.mapUp (draft.returnNode localName)) ++ [new] := by
  have part := Node.body_mem_children shape
  have isBlock := (layers node inside).family_body shape
  have same : decl.body.mapUp (draft.returnNode localName) = decl.body := by
    refine Node.mapUp_of_fixed fun below lies => returnNode_of_family ?_
    have inner := ((layers.below inside).child part).isInner_below (by rw [isBlock]; rfl) below lies
    intro isMethod
    rw [isMethod] at inner
    cases inner
  have shape' := Node.shape_rebuilt_of_method shape (draft.returnNode localName)
  rw [same] at shape'
  have plans : (plan draft.notes localName node decl).declares =
      (plan draft.notes localName (node.rebuilt (draft.returnNode localName)) { decl with
        params := decl.params.map (Node.mapUp (draft.returnNode localName)) }).declares :=
    declares_plan _ _ rfl rfl rfl
  rw [Node.mapUp_eq, returnNode, plans]
  simp only [shape']
  exact ⟨_, body_refits .., rfl⟩

theorem madeFor_of_surrounds {nodes : List Node} {method : NodeId} {outer : Setting}
    (surrounds : Surrounds (newIds draft method) nodes) (stands : draft.root.Stands outer node)
    (inMethod : outer.method = some method) (isBlock : node.shape.family = .block) :
    ∀ part ∈ nodes, draft.MadeFor (node.setting outer) method part := by
  intro part listed
  obtain ⟨family, named, value, only, bare, isValue, valueNamed⟩ := surrounds part listed
  constructor
  · rw [Node.method_setting_of_inner (by rw [isBlock]; rfl), inMethod]
  · exact stands.mem_method inMethod
  · exact .inl (named.elim (⟨1, by decide, ·⟩) (⟨4, by decide, ·⟩))
  · rcases family with family | family <;> rw [family] <;> rfl
  · intro isExpression
    rcases family with family | family <;> exact nomatch family.symm.trans isExpression
  · intro parent isParent
    rw [← Option.some.inj isParent, isBlock]
    rcases family with family | family <;> rw [family] <;> rfl
  · intro below inside
    rw [only, List.mem_singleton] at inside
    subst inside
    refine ⟨bare, ?_, .inr ⟨isValue, .inl
      (valueNamed.elim (⟨2, by decide, ·⟩) (⟨5, by decide, ·⟩))⟩⟩
    rw [isValue]
    rcases family with family | family <;> rw [family] <;> rfl

/-- What a node becomes: the same kind of node under the same identity, whose parts were parts before
or are made for the procedure. -/
structure Returned (draft : Draft) (localName : String) (setting : Setting) (old new : Node) :
    Prop where
  id : new.id = old.id
  family : new.shape.family = old.shape.family
  kept : old.shape.family ≠ .expression → ∀ part ∈ old.children, ∃ part' ∈ new.children,
    draft.ReturnCarried localName (old.setting setting) part part'
  parts : ∀ part' ∈ new.children,
    (∃ part ∈ old.children, draft.ReturnCarried localName (old.setting setting) part part') ∨
      ∃ method, draft.MadeFor (old.setting setting) method part'

section Carried

variable {setting : Setting} {old : Node} (layers : draft.root.InLayers)
  (stands : draft.root.Stands setting old)

include layers stands

theorem returned_mapUp (localName : String) :
    draft.Returned localName setting old (old.mapUp (draft.returnNode localName)) := by
  have id : (old.mapUp (draft.returnNode localName)).id = old.id := by
    rw [Node.mapUp_eq, id_returnNode, Node.id_rebuilt]
  have family : (old.mapUp (draft.returnNode localName)).shape.family = old.shape.family := by
    rw [Node.mapUp_eq, family_returnNode, Node.family_rebuilt]
  have mapped {part : Node} (inside : part ∈ old.children) : draft.ReturnCarried localName
      (old.setting setting) part (part.mapUp (draft.returnNode localName)) :=
    ⟨stands.part inside, .inl rfl⟩
  by_cases isMethod : old.shape.family = .method
  · obtain ⟨decl, shape⟩ := (Shape.family_eq_method_iff _).1 isMethod
    obtain ⟨new, refits, children⟩ := children_mapUp_method layers stands.mem shape
    have before : old.children = decl.params ++ [decl.body] := by
      rw [Node.children, shape]
      rfl
    have body := Node.body_mem_children shape
    have isBlock := (layers old stands.mem).family_body shape
    have isBody : draft.ReturnCarried localName (old.setting setting) decl.body new := by
      obtain ⟨retains, surrounds, _⟩ := refits
      refine ⟨stands.part body, .inr ⟨old.id, _, ?_, by rw [isBlock]; rfl, retains,
        .inr ⟨isBlock, _, _, surrounds, rfl⟩⟩⟩
      rw [Node.setting, isMethod]
    refine ⟨id, family, fun _ part inside => ?_, fun part' inside => ?_⟩
    · rw [children]
      rw [before] at inside
      rcases List.mem_append.1 inside with isParam | isLast
      · exact ⟨_, List.mem_append_left _ (List.mem_map.2 ⟨part, isParam, rfl⟩),
          mapped (before ▸ List.mem_append_left _ isParam)⟩
      · rw [List.mem_singleton.1 isLast]
        exact ⟨new, List.mem_append_right _ List.mem_cons_self, isBody⟩
    · rw [children] at inside
      rcases List.mem_append.1 inside with isParam | isLast
      · obtain ⟨part, among, rfl⟩ := List.mem_map.1 isParam
        have inside : part ∈ old.children := before ▸ List.mem_append_left _ among
        exact .inl ⟨part, inside, mapped inside⟩
      · rw [List.mem_singleton.1 isLast]
        exact .inl ⟨decl.body, body, isBody⟩
  · have children : (old.mapUp (draft.returnNode localName)).children =
        old.children.map (Node.mapUp (draft.returnNode localName)) := by
      rw [Node.mapUp_eq, returnNode_of_family (by rwa [Node.family_rebuilt]), Node.children_rebuilt]
    refine ⟨id, family, fun _ part inside => ?_, fun part' inside => ?_⟩
    · exact ⟨_, children ▸ List.mem_map.2 ⟨part, inside, rfl⟩, mapped inside⟩
    · rw [children] at inside
      obtain ⟨part, among, rfl⟩ := List.mem_map.1 inside
      exact .inl ⟨part, among, mapped among⟩

variable {method : NodeId} {replace : Node → Node} (inMethod : setting.method = some method)
  (inner : old.shape.family.isInner)
  (retains : Retains draft.notes method (newIds draft method) replace)
  (owns : isOwnName draft.notes method old → old.shape.family = .expression)

include inMethod inner retains owns

theorem returned_mapInType (localName : String) :
    draft.Returned localName setting old (old.mapInType replace) := by
  obtain ⟨id, family, kept, parts⟩ :=
    retains.children_mapInType (layers.below stands.mem) inner owns
  have owner : (old.setting setting).method = some method :=
    (Node.method_setting_of_inner inner setting).trans inMethod
  have mapped {part : Node} (inside : part ∈ old.children) :
      draft.ReturnCarried localName (old.setting setting) part (part.mapInType replace) :=
    ⟨stands.part inside, .inr ⟨method, replace, owner,
      Shape.Family.isInner_of_holds inner ((layers old stands.mem).parts part inside), retains,
      .inl rfl⟩⟩
  refine ⟨id, family, fun differs part inside => ⟨_, kept differs part inside, mapped inside⟩,
    fun part' inside => ?_⟩
  rcases parts part' inside with ⟨part, among, rfl⟩ | ⟨isStmt, bare, isValue, named⟩
  · exact .inl ⟨part, among, mapped among⟩
  · refine .inr ⟨method, owner, stands.mem_method inMethod,
      .inr ⟨isValue, .inr ⟨_, old, stands, inMethod, named⟩⟩, by rw [isValue]; rfl, fun _ => bare,
      fun parent isParent => ?_, fun below lies => ?_⟩
    · rw [← Option.some.inj isParent, isStmt, isValue]
      rfl
    · rw [bare] at lies
      exact nomatch lies

theorem returned_rebuilt (localName : String) (isBlock : old.shape.family = .block)
    {first : List Node} {last : List Node → List Node}
    (surrounds : ∀ stmts, Surrounds (newIds draft method) (first ++ last stmts)) :
    draft.Returned localName setting old (rebuilt old replace first last) := by
  have inBody := returned_mapInType layers stands inMethod inner retains owns localName
  obtain ⟨stmts, children⟩ := children_rebuilt first last (inBody.family.trans isBlock)
  have made := madeFor_of_surrounds (surrounds stmts) stands inMethod isBlock
  refine ⟨inBody.id, isBlock.symm, fun differs part inside => ?_, fun part' inside => ?_⟩
  · obtain ⟨part', among, isCarried⟩ := inBody.kept differs part inside
    exact ⟨part', children ▸ List.mem_append_left _ (List.mem_append_right _ among), isCarried⟩
  · rw [children] at inside
    rcases List.mem_append.1 inside with early | late
    · rcases List.mem_append.1 early with isFirst | among
      · exact .inr ⟨method, made part' (List.mem_append_left _ isFirst)⟩
      · exact inBody.parts part' among
    · exact .inr ⟨method, made part' (List.mem_append_right _ late)⟩

end Carried

theorem ReturnCarried.returned {setting : Setting} {old new : Node} (layers : draft.root.InLayers)
    (owns : ∀ node ∈ draft.root.descendants, ∀ method, isOwnName draft.notes method node →
      node.shape.family = .expression) (carried : draft.ReturnCarried localName setting old new) :
    draft.Returned localName setting old new := by
  obtain ⟨stands, rfl | ⟨method, replace, inMethod, inner, retains, rfl |
    ⟨isBlock, first, last, surrounds, rfl⟩⟩⟩ := carried
  · exact returned_mapUp layers stands localName
  · exact returned_mapInType layers stands inMethod inner retains (owns old stands.mem method)
      localName
  · exact returned_rebuilt layers stands inMethod inner retains (owns old stands.mem method)
      localName isBlock surrounds

/-- Giving back values moves no declaration, and makes nothing but nodes of procedures. -/
theorem returnCarries (layers : draft.root.InLayers)
    (owns : ∀ node ∈ draft.root.descendants, ∀ method, isOwnName draft.notes method node →
      node.shape.family = .expression) (localName : String) :
    Node.Carries (draft.ReturnCarried localName) fun setting node =>
      ∃ method, draft.MadeFor setting method node where
  id carried := (carried.returned layers owns).id
  family carried := (carried.returned layers owns).family
  kept carried := (carried.returned layers owns).kept
  parts carried := (carried.returned layers owns).parts
  below := by
    rintro setting node ⟨method, made⟩ part inside
    obtain ⟨bare, held, new⟩ := made.parts part inside
    refine ⟨method, ⟨(Node.method_setting_of_inner made.inner setting).trans made.inside,
      made.owner, new, Shape.Family.isInner_of_holds made.inner held, fun _ => bare, ?_, ?_⟩⟩
    · intro family isParent
      exact Option.some.inj isParent ▸ held
    · intro deeper lies
      rw [bare] at lies
      exact nomatch lies

end Draft

namespace ReturnValue

variable {notes : Notes} {kinds : DeclKinds} {carrier : NodeId} {type : Descriptor}

theorem binding?_bindAll (uses : List NodeId) {id : NodeId} {binding : Binding}
    (noted : (uses.foldl (fun notes id => (notes.bind id (.localVar carrier)).describe id type)
      notes).binding? id = some binding) :
    notes.binding? id = some binding ∨ id ∈ uses ∧ binding = .localVar carrier := by
  induction uses generalizing notes with
  | nil => exact .inl noted
  | cons first rest ih =>
    rcases ih noted with old | ⟨later, same⟩
    · simp only [Notes.binding?_describe, Notes.binding?_bind] at old
      split at old
      · rename_i isFirst
        exact .inr ⟨isFirst ▸ List.mem_cons_self, (Option.some.inj old).symm⟩
      · exact .inl old
    · exact .inr ⟨List.mem_cons_of_mem _ later, same⟩

theorem binding?_describeAll (values : List NodeId) (id : NodeId) :
    (values.foldl (fun notes id => notes.describe id type) notes).binding? id =
      notes.binding? id := by
  induction values generalizing notes with
  | nil => rfl
  | cons first rest ih => exact ih

theorem settled_bindAll (settled : notes.Settled kinds) (known : type.isDeferred = false)
    (names : type.Names kinds.isType) (uses : List NodeId) :
    (uses.foldl (fun notes id => (notes.bind id (.localVar carrier)).describe id type)
      notes).Settled kinds := by
  induction uses generalizing notes with
  | nil => exact settled
  | cons first rest ih => exact ih ((settled.bind first _).describe first known names)

theorem settled_describeAll (settled : notes.Settled kinds) (known : type.isDeferred = false)
    (names : type.Names kinds.isType) (values : List NodeId) :
    (values.foldl (fun notes id => notes.describe id type) notes).Settled kinds := by
  induction values generalizing notes with
  | nil => exact settled
  | cons first rest ih => exact ih (settled.describe first known names)

def planType? : ReturnPlan → Option Descriptor
  | .result _ type | .default type | .nothing (some type) => some type
  | .nothing none => none

theorem settled_note (settled : notes.Settled kinds) (ids : NewIds) (method : NodeId)
    (decl : MethodDecl Node) {plan : ReturnPlan} (known : ∀ type ∈ planType? plan,
      type.isDeferred = false ∧ type.Names kinds.isType) :
    (note ids method decl notes plan).Settled kinds := by
  cases plan with
  | result name type =>
    obtain ⟨known, names⟩ := known type rfl
    exact settled_bindAll ((settled.describe _ known names).describe _ known names) known names _
  | default type =>
    obtain ⟨known, names⟩ := known type rfl
    exact settled_describeAll settled known names _
  | nothing copied =>
    cases copied with
    | none => exact settled
    | some type =>
      obtain ⟨known, names⟩ := known type rfl
      exact settled_bindAll ((settled.describe _ known names).describe _ known names) known names _

theorem planType?_settled (settled : notes.Settled kinds) (localName : String) (method : Node)
    (decl : MethodDecl Node) : ∀ type ∈ planType? (plan notes localName method decl),
      type.isDeferred = false ∧ type.Names kinds.isType := by
  have noted {found : Option Descriptor} (known : ∀ type ∈ found,
      type.isDeferred = false ∧ type.Names kinds.isType) : (found.getD .object).isDeferred = false ∧
        (found.getD .object).Names kinds.isType := by
    cases found with
    | none => exact ⟨rfl, Descriptor.names_object⟩
    | some type => exact known type rfl
  intro type isType
  unfold plan at isType
  split at isType
  · dsimp only at isType
    have ofMethod := noted fun type found => settled method.id type found
    split at isType
    · obtain rfl := Option.some.inj isType
      exact ofMethod
    · obtain rfl := Option.some.inj isType
      exact ofMethod
  · unfold copied? at isType
    dsimp only at isType
    split at isType
    · obtain rfl := Option.some.inj isType
      refine noted fun type found => ?_
      obtain ⟨value, _, isNoted⟩ := List.mem_filterMap.1 (List.mem_of_head? found)
      exact settled value.id type isNoted
    · exact nomatch isType

/-- What is bound when the plan of a procedure is noted: names in its body, the values that are given
back at its exits, and the one at its end. -/
theorem binding?_note {ids : NewIds} {method id : NodeId} {decl : MethodDecl Node} {plan : ReturnPlan}
    {binding : Binding} (noted : (note ids method decl notes plan).binding? id = some binding) :
    notes.binding? id = some binding ∨ plan.declares ∧ binding = .localVar ids.carrier ∧
      ((∃ node ∈ decl.body.ownDescendants, node.id = id ∧
          (isOwnName notes method node ∨ isAssignedValue node)) ∨
        (∃ exit ∈ decl.body.ownDescendants, id = ids.atExit exit.id) ∨ id = ids.finalValue) := by
  cases plan with
  | result name type =>
    rcases binding?_bindAll _ noted with old | ⟨used, same⟩
    · exact .inl old
    · refine .inr ⟨rfl, same, ?_⟩
      rcases List.mem_append.1 used with early | final
      · rcases List.mem_append.1 early with isName | isValue
        · obtain ⟨node, among, rfl⟩ := List.mem_map.1 isName
          obtain ⟨inside, own⟩ := List.mem_filter.1 among
          exact .inl ⟨node, inside, rfl, .inl own⟩
        · obtain ⟨exit, among, rfl⟩ := List.mem_map.1 isValue
          exact .inr (.inl ⟨exit, List.mem_of_mem_filter among, rfl⟩)
      · exact .inr (.inr (List.mem_singleton.1 final))
  | default type => exact .inl ((binding?_describeAll _ id).symm.trans noted)
  | nothing copied =>
    cases copied with
    | none => exact .inl noted
    | some type =>
      rcases binding?_bindAll _ noted with old | ⟨used, same⟩
      · exact .inl old
      · obtain ⟨node, among, rfl⟩ := List.mem_map.1 used
        obtain ⟨inside, isValue⟩ := List.mem_filter.1 among
        exact .inr ⟨rfl, same, .inl ⟨node, inside, rfl, .inr isValue⟩⟩

end ReturnValue

namespace Draft

open ReturnValue

variable {draft : Draft} {kinds : DeclKinds} {script : ScriptId} {localName : String}

/-- The identity is bound to the new variable of a procedure: it is that of an expression in its body,
or of a value that is given back. -/
structure Rebound (draft : Draft) (localName : String) (method : Node) (decl : MethodDecl Node)
    (id : NodeId) (binding : Binding) : Prop where
  inside : method ∈ draft.root.descendants
  shape : method.shape = .method decl
  declares : (plan draft.notes localName method decl).declares
  bound : binding = .localVar (draft.newId 1 method.id)
  use : (∃ node ∈ decl.body.descendants, node.id = id ∧ node.shape.family = .expression) ∨
    (∃ exit ∈ decl.body.descendants, id = draft.newId 3 exit.id) ∨ id = draft.newId 5 method.id

theorem Refers.rebound (refers : draft.Refers kinds script) (localName : String)
    {id : NodeId} {binding : Binding}
    (noted : (draft.returnValues localName).1.notes.binding? id = some binding) :
    draft.notes.binding? id = some binding ∨
      ∃ method decl, draft.Rebound localName method decl id binding := by
  have holds : ∀ id binding, (draft.returnValues localName).1.notes.binding? id = some binding →
      draft.notes.binding? id = some binding ∨
        ∃ method decl, draft.Rebound localName method decl id binding := by
    refine List.foldlRecOn (motive := fun notes : Notes => ∀ id binding,
      notes.binding? id = some binding → draft.notes.binding? id = some binding ∨
        ∃ method decl, draft.Rebound localName method decl id binding)
      (draft.plannedMethods localName) draft.noteReturn (fun _ _ => .inl) ?_
    intro notes known planned listed id binding noted
    obtain ⟨method, inside, isPlanned⟩ := List.mem_filterMap.1 listed
    obtain ⟨decl, isMethod, rfl⟩ := Option.map_eq_some_iff.1 isPlanned
    have shape := Node.shape_of_methodDecl? isMethod
    have body {node : Node} (lies : node ∈ decl.body.descendants) :
        node ∈ draft.root.descendants := by
      exact Node.mem_descendants_trans
        (Node.mem_descendants_of_child (Node.body_mem_children shape) lies) inside
    rcases binding?_note noted with old | ⟨declares, same, use⟩
    · exact known id binding old
    · refine .inr ⟨method, decl, inside, shape, declares, same, ?_⟩
      rcases use with ⟨node, lies, named, own⟩ | ⟨exit, lies, named⟩ | final
      · have lies := Node.mem_ownDescendants lies
        refine .inl ⟨node, lies, named, ?_⟩
        rcases own with own | isValue
        · -- a name that was rebound already stands for a variable
          obtain ⟨setting, stands⟩ := Node.exists_stands (body lies)
          rcases known _ _ (eq_of_beq own) with old | ⟨_, _, again⟩
          · exact refers.tree.expression stands old
          · cases again.bound
        · exact isAssignedValue_family isValue
      · exact .inr (.inl ⟨exit, Node.mem_ownDescendants lies, named⟩)
      · exact .inr (.inr final)
  exact holds id binding noted

theorem Refers.returnValues_settled (refers : draft.Refers kinds script) (localName : String) :
    (draft.returnValues localName).1.notes.Settled kinds := by
  refine List.foldlRecOn (motive := fun notes : Notes => notes.Settled kinds)
    (draft.plannedMethods localName) draft.noteReturn refers.settled ?_
  intro notes settled planned listed
  obtain ⟨method, _, isPlanned⟩ := List.mem_filterMap.1 listed
  obtain ⟨decl, _, rfl⟩ := Option.map_eq_some_iff.1 isPlanned
  exact settled_note settled _ _ _ (planType?_settled refers.settled localName method decl)

theorem declares_carrier (layers : draft.root.InLayers)
    (owns : ∀ node ∈ draft.root.descendants, ∀ method, isOwnName draft.notes method node →
      node.shape.family = .expression) {method : Node} {decl : MethodDecl Node}
    (inside : method ∈ draft.root.descendants) (shape : method.shape = .method decl)
    (declares : (plan draft.notes localName method decl).declares) :
    (draft.root.mapUp (draft.returnNode localName)).Declares .localVar
      (draft.newId 1 method.id) method.id := by
  have carries := returnCarries layers owns localName
  have isMethod : method.shape.family = .method := by rw [shape]; rfl
  obtain ⟨setting, stands⟩ := Node.exists_stands inside
  obtain ⟨node, stands', carried⟩ := carries.stays ⟨.root, .inl rfl⟩ layers.nested stands
    (by rw [isMethod]; decide)
  have id := carries.id carried
  have family := (carries.family carried).trans isMethod
  obtain ⟨_, rfl | ⟨_, _, _, inner, _⟩⟩ := carried
  · obtain ⟨new, refits, children⟩ := children_mapUp_method layers inside shape
    obtain ⟨_, _, declared⟩ := refits
    obtain ⟨carrier, first, isVar, named⟩ := declared declares
    refine ⟨_, carrier, (stands'.part (children ▸ List.mem_append_right _ List.mem_cons_self)).part
      (List.mem_append_left _ (List.mem_append_left _ first)), named, isVar, ?_⟩
    rw [Node.method_setting_of_inner rfl, Node.setting, family, id]
  · rw [isMethod] at inner
    cases inner

theorem Tidy.newFor_large (tidy : draft.Tidy) {setting : Setting} {method : NodeId} {node : Node}
    (made : draft.MadeFor setting method node) : draft.fresh ≤ node.id.index ∧
      node.id.index < 6 * draft.fresh := by
  obtain ⟨owner, inside, rfl⟩ := made.owner
  have large {plane : Nat} {source : NodeId} (first : 1 ≤ plane) (last : plane ≤ 5)
      (small : source.index < draft.fresh) (named : node.id = draft.newId plane source) :
      draft.fresh ≤ node.id.index ∧ node.id.index < 6 * draft.fresh := by
    rw [named]
    exact draft.newId_bounds first last small
  have small := tidy.small owner inside
  rcases made.new with ⟨plane, among, named⟩ | ⟨_, ⟨plane, among, named⟩ | ⟨_, exit, stands, _,
    named⟩⟩
  · exact large (by simp at among; omega) (by simp at among; omega) small named
  · exact large (by simp at among; omega) (by simp at among; omega) small named
  · exact large (by decide) (by decide) (tidy.small exit stands.mem) named

namespace Refers

variable (refers : draft.Refers kinds script)

include refers

theorem owns : ∀ node ∈ draft.root.descendants, ∀ method, isOwnName draft.notes method node →
    node.shape.family = .expression := by
  intro node inside method own
  obtain ⟨setting, stands⟩ := Node.exists_stands inside
  exact refers.tree.expression stands (eq_of_beq own)

/-- A node of the tree that stands for a new variable is an expression in the body of its procedure,
as all else that is bound to it is new. -/
theorem rebound_kept (layers : draft.root.InLayers) {setting : Setting} {source : Node}
    {binding : Binding} (above : draft.root.Stands setting source) {method : Node}
    {decl : MethodDecl Node}
    (rebound : draft.Rebound localName method decl source.id binding) :
    source.shape.family = .expression ∧ setting.method = some method.id := by
  have small := refers.small source above.mem
  have inBody {below : Node} (lies : below ∈ decl.body.descendants) :=
    layers.stands_in_body rebound.inside rebound.shape lies
  rcases rebound.use with ⟨below, lies, named, family⟩ | ⟨exit, lies, named⟩ | named
  · obtain ⟨outer, stands, inMethod⟩ := inBody lies
    rw [above.unique refers.distinct stands named.symm,
      refers.distinct.eq_of_id_eq above.mem stands.mem named.symm]
    exact ⟨family, inMethod⟩
  · obtain ⟨outer, stands, _⟩ := inBody lies
    have large := (draft.newId_bounds (by decide) (by decide : 3 ≤ 5)
      (refers.small exit stands.mem)).1
    rw [← named] at large
    exact absurd small (Nat.not_lt_of_le large)
  · have large := (draft.newId_bounds (by decide) (Nat.le_refl 5)
      (refers.small method rebound.inside)).1
    rw [← named] at large
    exact absurd small (Nat.not_lt_of_le large)

/-- A new node that stands for a new variable is a value that the procedure of the variable gives
back: the identities of all other new nodes lie in other planes. -/
theorem rebound_made (layers : draft.root.InLayers) {setting : Setting} {node method : Node}
    {other : NodeId} {binding : Binding} {decl : MethodDecl Node}
    (made : draft.MadeFor setting other node)
    (rebound : draft.Rebound localName method decl node.id binding) :
    node.shape.family = .expression ∧ setting.method = some method.id := by
  have large := (refers.toTidy.newFor_large made).1
  obtain ⟨owner, inside, rfl⟩ := made.owner
  have smallOwner := refers.small owner inside
  have smallMethod := refers.small method rebound.inside
  have inBody {below : Node} (lies : below ∈ decl.body.descendants) :=
    layers.stands_in_body rebound.inside rebound.shape lies
  rcases rebound.use with ⟨below, lies, named, _⟩ | ⟨exit, lies, named⟩ | named
  · obtain ⟨outer, stands, _⟩ := inBody lies
    have small := refers.small below stands.mem
    rw [named] at small
    exact absurd small (Nat.not_lt_of_le large)
  · obtain ⟨outer, stands, inMethod⟩ := inBody lies
    have small := refers.small exit stands.mem
    rcases made.new with ⟨plane, among, named'⟩ | ⟨isValue, ⟨plane, among, named'⟩ |
      ⟨outer', exit', above, inMethod', named'⟩⟩
    · have planes := (newId_inj draft small smallOwner (named.symm.trans named')).1
      simp [← planes] at among
    · have planes := (newId_inj draft small smallOwner (named.symm.trans named')).1
      simp [← planes] at among
    · have same := (newId_inj draft small (refers.small exit' above.mem)
        (named.symm.trans named')).2
      rw [stands.unique refers.distinct above same, inMethod'] at inMethod
      exact ⟨isValue, made.inside.trans inMethod⟩
  · rcases made.new with ⟨plane, among, named'⟩ | ⟨isValue, ⟨plane, among, named'⟩ |
      ⟨outer', exit', above, inMethod', named'⟩⟩
    · have planes := (newId_inj draft smallMethod smallOwner (named.symm.trans named')).1
      simp [← planes] at among
    · have same := (newId_inj draft smallMethod smallOwner (named.symm.trans named')).2
      exact ⟨isValue, made.inside.trans (congrArg some same.symm)⟩
    · have planes := (newId_inj draft smallMethod (refers.small exit' above.mem)
        (named.symm.trans named')).1
      exact absurd planes (by decide)

theorem rebound_fits (layers : draft.root.InLayers) {setting : Setting} {node : Node}
    {binding : Binding}
    (stands : (draft.root.mapUp (draft.returnNode localName)).Stands setting node)
    {method : Node} {decl : MethodDecl Node}
    (rebound : draft.Rebound localName method decl node.id binding) :
    node.shape.family = .expression ∧ setting.method = some method.id := by
  have carries := returnCarries layers refers.owns localName
  rcases carries.origin ⟨.root, .inl rfl⟩ stands with ⟨source, above, carried⟩ | ⟨other, made⟩
  · rw [carries.id carried] at rebound
    rw [carries.family carried]
    exact refers.rebound_kept layers above rebound
  · exact refers.rebound_made layers made rebound

/-- After values are given back, names still stand for declarations of the right kind. -/
theorem returnValues (layers : draft.root.InLayers) (localName : String) :
    (draft.returnValues localName).1.Refers kinds script := by
  have carries := returnCarries layers refers.owns localName
  have starts : draft.ReturnCarried localName .top draft.root
      (draft.root.mapUp (draft.returnNode localName)) := ⟨.root, .inl rfl⟩
  have before : (draft.root.mapUp (draft.returnNode localName)).Refers draft.notes kinds script :=
    refers.tree.carries carries starts (fun ⟨_, made⟩ => made.held) fun ⟨_, made⟩ =>
      Option.eq_none_iff_forall_ne_some.2 fun _ noted =>
        absurd (refers.bound noted) (Nat.not_lt_of_le (refers.toTidy.newFor_large made).1)
  refine ⟨refers.toTidy.returnValues localName, ⟨before.nested, ?_, ?_⟩,
    refers.returnValues_settled localName, ?_⟩
  · intro setting node binding stands noted
    rcases refers.rebound localName noted with old | ⟨method, decl, rebound⟩
    · exact before.fits stands old
    · rw [rebound.bound]
      exact ⟨method.id, (refers.rebound_fits layers stands rebound).2,
        declares_carrier layers refers.owns rebound.inside rebound.shape rebound.declares⟩
  · intro setting node binding stands noted
    rcases refers.rebound localName noted with old | ⟨method, decl, rebound⟩
    · exact before.expression stands old
    · exact (refers.rebound_fits layers stands rebound).1
  · intro id binding noted
    have grows : draft.fresh ≤ (5 + 1) * draft.fresh := Nat.le_mul_of_pos_left _ (by decide)
    rcases refers.rebound localName noted with old | ⟨method, decl, rebound⟩
    · exact Nat.lt_of_lt_of_le (refers.bound old) grows
    · have inside {below : Node} (lies : below ∈ decl.body.descendants) :
          below ∈ draft.root.descendants := by
        exact Node.mem_descendants_trans (Node.mem_descendants_of_child
          (Node.body_mem_children rebound.shape) lies) rebound.inside
      rcases rebound.use with ⟨below, lies, rfl, _⟩ | ⟨exit, lies, rfl⟩ | rfl
      · exact Nat.lt_of_lt_of_le (refers.small below (inside lies)) grows
      · exact (draft.newId_bounds (by decide) (by decide) (refers.small exit (inside lies))).2
      · exact (draft.newId_bounds (by decide) (Nat.le_refl 5)
          (refers.small method rebound.inside)).2

theorem rooted_returnValues (layers : draft.root.InLayers) (localName : String)
    (rooted : kinds.Rooted script draft.root) :
    kinds.Rooted script (draft.returnValues localName).1.root :=
  rooted.carries (returnCarries layers refers.owns localName) ⟨.root, .inl rfl⟩ layers.nested

end Refers

end Draft

end ScriptMigration
