import ScriptMigration.Proofs.Reshape.ReturnMeaning
import ScriptMigration.Proofs.Resolution.Procedures

/-! What procedures look like once values are given back by returning them. None is left by an exit. A
function ends in a return, all its returns carry a value of its type, and the only variable for that
value stands first, where the function used its name before; in all other procedures every return is
bare. -/
namespace ScriptMigration

namespace Node

variable {fine : Node → Prop} {replace : Node → Node} {body : Node}

theorem forall_mapInType (layers : body.InLayers) (inner : body.shape.family.isInner)
    (each : ∀ old ∈ body.descendants, ∀ g : Node → Node,
      (replace (old.withParts g) = old.withParts g ∧ fine (old.withParts g)) ∨
        ∀ below ∈ (replace (old.withParts g)).descendants, fine below) :
    ∀ below ∈ (body.mapInType replace).descendants, fine below := by
  induction body using Node.induction with
  | step body ih =>
    rw [mapInType_of_inner layers inner]
    rcases each body body.mem_descendants_self (mapInType replace) with ⟨same, here⟩ | all
    · rw [same]
      refine forall_of_parts here fun part isPart => ?_
      rw [children_withParts] at isPart
      obtain ⟨old, among, rfl⟩ := List.mem_map.1 isPart
      exact ih old among (layers.child among)
        (Shape.Family.isInner_of_holds inner (layers.here.parts old among))
        fun source lies => each source (mem_descendants_of_child among lies)
    · exact all

end Node

def ReturnPlan.isResult : ReturnPlan → Bool
  | .result .. => true
  | _ => false

def ReturnPlan.isDefault : ReturnPlan → Bool
  | .default _ => true
  | _ => false

theorem ReturnCounts.foldl_add (methods : List PlannedMethod) (counts : ReturnCounts) :
    (methods.foldl (fun counts method => counts.add method.plan) counts).results =
        counts.results + methods.countP (·.plan.isResult) ∧
      (methods.foldl (fun counts method => counts.add method.plan) counts).defaults =
        counts.defaults + methods.countP (·.plan.isDefault) := by
  induction methods generalizing counts with
  | nil => exact ⟨rfl, rfl⟩
  | cons first rest ih =>
    obtain ⟨results, defaults⟩ := ih (counts.add first.plan)
    rw [List.foldl_cons, results, defaults, List.countP_cons, List.countP_cons]
    rcases first.plan with _ | _ | (_ | _) <;>
      simp only [add, ReturnPlan.isResult, ReturnPlan.isDefault] <;> constructor <;> simp <;> omega

namespace ReturnValue

def isFunction (node : Node) : Bool := node.methodDecl?.any (·.kind.returnsValue)

def namesItself (notes : Notes) (node : Node) : Bool :=
  node.methodDecl?.any fun decl => decl.body.descendants.any (isOwnName notes node.id)

def isValueVariable (node : Node) : Bool :=
  match node.shape with
  | .localVar decl => decl.origin == .returnValue
  | _ => false

/-- Nothing in a body stands for the value of the function, all returns carry one of the type, and the
last statement is a return. -/
structure GivesBack (notes : Notes) (method : NodeId) (type : Descriptor) (body : Node) : Prop where
  unnamed : ∀ below ∈ body.descendants, isOwnName notes method below = false
  returns : ∀ below ∈ body.descendants, ∀ given, below.shape = .returnStmt given →
    ∃ value, given = some value ∧ notes.descriptor? value.id = some type
  ends : ∃ last value, body.stmts.getLast? = some last ∧ last.shape = .returnStmt (some value)

/-- The first statement of a body is the only variable for the value that is given back, and it starts
with the default of the type. -/
def StartsWithValue (type : Descriptor) (body : Node) : Prop :=
  ∃ first decl initial, body.stmts.head? = some first ∧
    body.descendants.filter isValueVariable = [first] ∧ first.shape = .localVar decl ∧
    decl.init = some initial ∧ initial.shape = .literal type.startValue

theorem isValueVariable_of_source {node : Node} (source : node.shape.isSource) :
    isValueVariable node = false := by
  unfold isValueVariable
  split
  · rename_i decl shape
    rw [shape] at source
    simpa [Shape.isSource] using source
  · rfl

def bareNode (copied : Bool) (node : Node) : Node :=
  if isExit node then node.withShape (.returnStmt none)
  else if copied && isAssignedValue node then node.withShape (.name copyName)
  else node

end ReturnValue

namespace Draft

open ReturnValue

variable {draft : Draft} {node : Node} {decl : MethodDecl Node} {gives : Option Node → Prop}
  {replace : Node → Node}

structure Lands (draft : Draft) (method : NodeId) (body : Node) (gives : Option Node → Prop)
    (node : Node) : Prop where
  belongs : draft.Belongs method body node.id
  stays : isExit node = false
  returns : ∀ given, node.shape = .returnStmt given → gives given

structure Rests (draft : Draft) (method : NodeId) (body : Node) (gives : Option Node → Prop)
    (node : Node) : Prop extends draft.Lands method body gives node where
  plain : isValueVariable node = false

theorem Rests.ofSource {body new : Node} {method : NodeId} (belongs : draft.Belongs method body new.id)
    (stays : isExit new = false) (source : new.shape.isSource) : draft.Rests method body gives new := by
  refine ⟨⟨belongs, stays, fun given isReturn => ?_⟩, isValueVariable_of_source source⟩
  rw [isReturn] at source
  exact nomatch source

theorem Rests.ofReturn {body new : Node} {method : NodeId} {given : Option Node}
    (belongs : draft.Belongs method body new.id) (shape : new.shape = .returnStmt given)
    (allowed : gives given) : draft.Rests method body gives new := by
  refine ⟨⟨belongs, ?_, fun other isReturn => ?_⟩, ?_⟩
  · rw [isExit, shape]
  · rwa [← Shape.returnStmt.inj (shape.symm.trans isReturn)]
  · rw [isValueVariable, shape]

structure ValueFor (draft : Draft) (method : NodeId) (body value : Node) : Prop where
  belongs : draft.Belongs method body value.id
  bare : value.children = []
  stays : isExit value = false
  source : value.shape.isSource

theorem ValueFor.rests {body value : Node} {method : NodeId}
    (made : draft.ValueFor method body value) :
    ∀ below ∈ value.descendants, draft.Rests method body gives below :=
  Node.forall_of_bare made.bare (.ofSource made.belongs made.stays made.source)

inductive Puts (draft : Draft) (method : NodeId) (body : Node) (gives : Option Node → Prop)
    (old : Node) : Node → Prop where
  | same (stays : isExit old = false) : Puts draft method body gives old old
  | name (text : String) : Puts draft method body gives old (old.withShape (.name text))
  | giveBack (given : Option Node) (allowed : gives given)
      (made : ∀ value ∈ given, draft.ValueFor method body value) :
      Puts draft method body gives old (old.withShape (.returnStmt given))

section Procedure

variable (unreturned : draft.Unreturned) (inside : node ∈ draft.root.descendants)
  (shape : node.shape = .method decl)

include unreturned inside shape

theorem Unreturned.source_in_body {below : Node} (lies : below ∈ decl.body.descendants) :
    below.shape.isSource := by
  obtain ⟨_, stands, _⟩ := unreturned.layers.stands_in_body inside shape lies
  exact unreturned.source below stands.mem

theorem Unreturned.rests_mapInType (puts : ∀ old ∈ decl.body.descendants, ∀ g : Node → Node,
      draft.Puts node.id decl.body gives (old.withParts g) (replace (old.withParts g))) :
    ∀ below ∈ (decl.body.mapInType replace).descendants,
      draft.Rests node.id decl.body gives below := by
  obtain ⟨bodyLayers, isBlock⟩ := unreturned.body inside shape
  refine Node.forall_mapInType bodyLayers (by rw [isBlock]; rfl) fun old lies g => ?_
  have belongs : draft.Belongs node.id decl.body (old.withParts g).id := .inl ⟨old, lies, .inl rfl⟩
  have source : (old.withParts g).shape.isSource :=
    (Shape.isSource_mapParts old.shape _).trans (unreturned.source_in_body inside shape lies)
  generalize isPut : replace (old.withParts g) = new
  have put := puts old lies g
  rw [isPut] at put
  cases put with
  | same stays => exact .inl ⟨rfl, .ofSource belongs stays source⟩
  | name text => exact .inr (Node.forall_of_bare rfl (.ofSource belongs rfl rfl))
  | giveBack given allowed made =>
    refine .inr (Node.forall_of_parts (.ofReturn belongs rfl allowed) fun part isPart => ?_)
    exact (made part (Option.mem_toList.1 isPart)).rests

theorem Unreturned.rests_rebuilt (puts : ∀ old ∈ decl.body.descendants, ∀ g : Node → Node,
      draft.Puts node.id decl.body gives (old.withParts g) (replace (old.withParts g)))
    (first : List Node) (last : List Node → List Node)
    (final : ∀ stmts, ∀ below ∈ (last stmts).flatMap Node.descendants,
      draft.Rests node.id decl.body gives below) :
    draft.Rests node.id decl.body gives (rebuilt decl.body replace first last) ∧
      ∀ below ∈ (decl.body.mapInType replace).stmts.flatMap Node.descendants ++
          (last (decl.body.mapInType replace).stmts).flatMap Node.descendants,
        draft.Rests node.id decl.body gives below := by
  have rests := unreturned.rests_mapInType inside shape puts
  refine ⟨.ofSource (rests _ (Node.mem_descendants_self _)).belongs rfl rfl,
    List.forall_mem_append.2 ⟨fun below lies => ?_, final _⟩⟩
  obtain ⟨stmt, isStmt, deeper⟩ := List.mem_flatMap.1 lies
  exact rests below (Node.mem_descendants_of_child (Node.mem_children_of_stmts isStmt) deeper)

def GivesMade (draft : Draft) (method : NodeId) (body : Node) (given : Option Node) : Prop :=
  ∃ value, given = some value ∧ value.id ∈ valuesOf (newIds draft method) body

theorem Unreturned.puts_exit {old value : Node} {g : Node → Node} (lies : old ∈ decl.body.descendants)
    (exit : isExit (old.withParts g)) (named : value.id = (newIds draft node.id).atExit old.id)
    (bare : value.children = []) (stays : isExit value = false) (source : value.shape.isSource) :
    draft.Puts node.id decl.body (draft.GivesMade node.id decl.body) (old.withParts g)
      ((old.withParts g).withShape (.returnStmt (some value))) := by
  rw [isExit_withParts] at exit
  have among : old ∈ decl.body.ownDescendants.filter isExit := by
    rw [unreturned.ownDescendants_body inside shape]
    exact List.mem_filter.2 ⟨lies, exit⟩
  refine .giveBack _ ⟨value, rfl, List.mem_append_left _ (List.mem_map.2 ⟨old, among, named.symm⟩)⟩
    fun given isGiven => ?_
  obtain rfl := Option.some.inj isGiven
  exact ⟨.inl ⟨old, lies, .inr named⟩, bare, stays, source⟩

theorem Unreturned.puts_result (name : String) : ∀ old ∈ decl.body.descendants, ∀ g : Node → Node,
    draft.Puts node.id decl.body (draft.GivesMade node.id decl.body) (old.withParts g)
      (resultNode draft.notes (newIds draft node.id) node.id decl.body.line name (old.withParts g)) := by
  intro old lies g
  unfold resultNode
  split
  · exact .name name
  split
  · rename_i exit
    exact unreturned.puts_exit inside shape lies exit rfl rfl rfl rfl
  · rename_i stays
    exact .same (Bool.of_not_eq_true stays)

theorem Unreturned.puts_default (value : Literal) : ∀ old ∈ decl.body.descendants, ∀ g : Node → Node,
    draft.Puts node.id decl.body (draft.GivesMade node.id decl.body) (old.withParts g)
      (defaultNode (newIds draft node.id) node.line value (old.withParts g)) := by
  intro old lies g
  unfold defaultNode
  split
  · rename_i exit
    exact unreturned.puts_exit inside shape lies exit rfl rfl rfl rfl
  · rename_i stays
    exact .same (Bool.of_not_eq_true stays)

omit unreturned inside shape in
theorem puts_bare (copied : Bool) (old : Node) :
    draft.Puts node.id decl.body (· = none) old (bareNode copied old) := by
  unfold bareNode
  split
  · exact .giveBack none rfl fun _ absurd => nomatch absurd
  · rename_i stays
    split
    · exact .name copyName
    · exact .same (Bool.of_not_eq_true stays)

omit unreturned inside shape in
theorem rests_final {line : Nat} {value : Node} (bare : value.children = [])
    (stays : isExit value = false) (source : value.shape.isSource)
    (named : value.id = (newIds draft node.id).finalValue) :
    ∀ below ∈ [Node.made (newIds draft node.id).final line (.returnStmt (some value))].flatMap
        Node.descendants,
      draft.Rests node.id decl.body (draft.GivesMade node.id decl.body) below := by
  rw [List.flatMap_singleton]
  have belongs : draft.Belongs node.id decl.body value.id := .inr ⟨5, by decide, named⟩
  refine Node.forall_of_parts (.ofReturn (.inr ⟨4, by decide, rfl⟩) rfl ⟨value, rfl, ?_⟩)
    fun part isPart => ?_
  · exact List.mem_append_right _ (List.mem_singleton.2 named)
  · obtain rfl := List.mem_singleton.1 isPart
    exact ValueFor.rests ⟨belongs, bare, stays, source⟩

omit unreturned inside shape in
theorem descendants_rebuilt (body : Node) (replace : Node → Node) (first : List Node)
    (last : List Node → List Node) : (rebuilt body replace first last).descendants =
      rebuilt body replace first last :: (first.flatMap Node.descendants ++
        ((body.mapInType replace).stmts.flatMap Node.descendants ++
          (last (body.mapInType replace).stmts).flatMap Node.descendants)) := by
  rw [Node.descendants_eq, ← List.append_assoc, ← List.flatMap_append, ← List.flatMap_append]
  rfl

section Bodies

variable (type : Descriptor)

omit unreturned inside shape in
theorem body_default : ReturnValue.body draft.notes (newIds draft node.id) node decl (.default type) =
    rebuilt decl.body (defaultNode (newIds draft node.id) node.line type.startValue) [] fun _ =>
      [.made (newIds draft node.id).final decl.body.lastLine (.returnStmt
        (some (.made (newIds draft node.id).finalValue node.line (.literal type.startValue))))] := rfl

omit unreturned inside shape in
theorem body_result (name : String) :
    ReturnValue.body draft.notes (newIds draft node.id) node decl (.result name type) =
      rebuilt decl.body (resultNode draft.notes (newIds draft node.id) node.id decl.body.line name)
        [variableNode (newIds draft node.id) name .returnValue decl.body.line
          (.made (newIds draft node.id).initial node.line (.literal type.startValue))] fun stmts =>
        if stmts.getLast?.any isReturn then []
        else [.made (newIds draft node.id).final decl.body.lastLine
          (.returnStmt (some (.made (newIds draft node.id).finalValue decl.body.line (.name name))))] :=
  rfl

omit unreturned inside shape in
theorem body_bare (copied : Option Descriptor) :
    ReturnValue.body draft.notes (newIds draft node.id) node decl (.nothing copied) =
      rebuilt decl.body (bareNode copied.isSome)
        (if copied.isSome then
          [variableNode (newIds draft node.id) copyName .valueCopy decl.body.line
            (.made (newIds draft node.id).initial decl.body.line .assignedValue)]
        else []) fun _ => [] := rfl

theorem Unreturned.rests_default :
    ∀ below ∈ (ReturnValue.body draft.notes (newIds draft node.id) node decl
        (.default type)).descendants,
      draft.Rests node.id decl.body (draft.GivesMade node.id decl.body) below := by
  intro below lies
  rw [body_default, descendants_rebuilt] at lies
  obtain ⟨whole, rest⟩ := unreturned.rests_rebuilt inside shape
    (unreturned.puts_default inside shape type.startValue) [] (fun _ =>
      [.made (newIds draft node.id).final decl.body.lastLine (.returnStmt
        (some (.made (newIds draft node.id).finalValue node.line (.literal type.startValue))))])
    fun _ => rests_final rfl rfl rfl rfl
  rcases List.mem_cons.1 lies with rfl | lies
  · exact whole
  · exact rest below lies

theorem Unreturned.rests_bare (copied : Option Descriptor) :
    ∀ below ∈ (ReturnValue.body draft.notes (newIds draft node.id) node decl
        (.nothing copied)).descendants,
      draft.Rests node.id decl.body (· = none) below := by
  intro below lies
  rw [body_bare, descendants_rebuilt] at lies
  have puts : ∀ old ∈ decl.body.descendants, ∀ g : Node → Node,
      draft.Puts node.id decl.body (· = none) (old.withParts g)
        (bareNode copied.isSome (old.withParts g)) := fun _ _ _ => puts_bare ..
  obtain ⟨whole, rest⟩ := unreturned.rests_rebuilt inside shape puts _ (fun _ => [])
    fun _ _ absurd => nomatch absurd
  rcases List.mem_cons.1 lies with rfl | lies
  · exact whole
  rcases List.mem_append.1 lies with first | lies
  · split at first
    · rw [List.flatMap_singleton] at first
      refine Node.forall_of_parts (.ofSource (.inr ⟨1, by decide, rfl⟩) rfl rfl)
        (fun part isPart => ?_) below first
      obtain rfl := List.mem_singleton.1 isPart
      exact ValueFor.rests ⟨.inr ⟨2, by decide, rfl⟩, rfl, rfl, rfl⟩
    · exact nomatch first
  · exact rest below lies

theorem Unreturned.lands_result (name : String) :
    (∀ below ∈ (ReturnValue.body draft.notes (newIds draft node.id) node decl
        (.result name type)).descendants,
      draft.Lands node.id decl.body (draft.GivesMade node.id decl.body) below) ∧
    StartsWithValue type (ReturnValue.body draft.notes (newIds draft node.id) node decl
      (.result name type)) := by
  obtain ⟨whole, rest⟩ := unreturned.rests_rebuilt inside shape
    (unreturned.puts_result inside shape name)
    [variableNode (newIds draft node.id) name .returnValue decl.body.line
      (.made (newIds draft node.id).initial node.line (.literal type.startValue))]
    (fun stmts => if stmts.getLast?.any isReturn then []
      else [.made (newIds draft node.id).final decl.body.lastLine
        (.returnStmt (some (.made (newIds draft node.id).finalValue decl.body.line (.name name))))])
    fun stmts => by
      split
      · exact fun _ absurd => nomatch absurd
      · exact rests_final rfl rfl rfl rfl
  have initial : draft.Rests node.id decl.body (draft.GivesMade node.id decl.body)
      (.made (newIds draft node.id).initial node.line (.literal type.startValue)) :=
    .ofSource (.inr ⟨2, by decide, rfl⟩) rfl rfl
  have carrier : draft.Lands node.id decl.body (draft.GivesMade node.id decl.body)
      (variableNode (newIds draft node.id) name .returnValue decl.body.line
        (.made (newIds draft node.id).initial node.line (.literal type.startValue))) :=
    ⟨.inr ⟨1, by decide, rfl⟩, rfl, fun _ absurd => nomatch absurd⟩
  rw [body_result]
  constructor
  · intro below lies
    rw [descendants_rebuilt, List.flatMap_singleton, descendants_variableNode _ _ _ rfl] at lies
    rcases List.mem_cons.1 lies with rfl | lies
    · exact whole.toLands
    rcases List.mem_append.1 lies with first | lies
    · rcases List.mem_cons.1 first with rfl | first
      · exact carrier
      · rw [List.mem_singleton.1 first]
        exact initial.toLands
    · exact (rest below lies).toLands
  · refine ⟨_, _, _, rfl, ?_, rfl, rfl, rfl⟩
    have none' := List.filter_eq_nil_iff.2 fun below lies =>
      Bool.eq_false_iff.1 (rest below lies).plain
    rw [descendants_rebuilt, List.flatMap_singleton, descendants_variableNode _ _ _ rfl,
      List.filter_cons_of_neg (by rw [whole.plain]; decide), List.filter_append, none', List.append_nil,
      List.filter_cons_of_pos rfl, List.filter_cons_of_neg (by rw [initial.plain]; decide),
      List.filter_nil]

theorem Unreturned.ends_result (name : String) : ∃ last value,
    (ReturnValue.body draft.notes (newIds draft node.id) node decl
      (.result name type)).stmts.getLast? = some last ∧ last.shape = .returnStmt (some value) := by
  rw [stmts_body_result]
  split
  · rename_i isLast
    obtain ⟨last, found, isReturn⟩ := (Option.any_eq_true ..).1 isLast
    rw [List.append_nil, List.getLast?_cons, found]
    have lies := Node.child_mem_descendants (Node.mem_children_of_stmts (List.mem_of_getLast? found))
    have rests := unreturned.rests_mapInType inside shape (unreturned.puts_result inside shape name)
      last lies
    unfold ReturnValue.isReturn at isReturn
    split at isReturn
    · rename_i given isShape
      obtain ⟨value, rfl, _⟩ := rests.returns given isShape
      exact ⟨last, value, rfl, isShape⟩
    · exact nomatch isReturn
  · rw [← List.cons_append, List.getLast?_concat]
    exact ⟨_, _, rfl, rfl⟩

end Bodies

section Notes

variable (localName : String)

theorem Unreturned.agree_method : draft.notes.Agree (draft.returnValues localName).1.notes node.id := by
  refine agree_elsewhere localName fun other among decl' shape' belongs => ?_
  obtain ⟨below, lies, same⟩ :=
    unreturned.lies_of_belongs among shape' belongs (unreturned.small node inside)
  obtain ⟨_, stands, _⟩ := unreturned.layers.stands_in_body among shape' lies
  obtain ⟨bodyLayers, isBlock⟩ := unreturned.body among shape'
  have inner := bodyLayers.isInner_below (by rw [isBlock]; rfl) below lies
  rw [← unreturned.distinct.eq_of_id_eq inside stands.mem same, shape] at inner
  exact nomatch inner

variable (returns : decl.kind.returnsValue) {id : NodeId}

include returns

theorem Unreturned.descriptor?_value (listed : id ∈ valuesOf (newIds draft node.id) decl.body) :
    (draft.returnValues localName).1.notes.descriptor? id =
      some ((draft.notes.descriptor? node.id).getD .object) := by
  rw [(unreturned.agree_returnValues inside shape localName (belongs_of_valuesOf listed)).descriptor,
    (note_eq ..).2.1]
  rcases plan_of_returns draft.notes localName node returns with ⟨name, isPlan⟩ | ⟨isPlan, _⟩ <;>
    rw [isPlan]
  · exact if_pos (List.mem_cons_of_mem _ (List.mem_cons_of_mem _ (List.mem_append_right _ listed)))
  · exact if_pos listed

theorem Unreturned.binding?_ne (belongs : draft.Belongs node.id decl.body id) :
    (draft.returnValues localName).1.notes.binding? id ≠ some (.returnValue node.id) := by
  rw [(unreturned.agree_returnValues inside shape localName belongs).binding, (note_eq ..).1]
  split
  · nofun
  rename_i unlisted
  intro noted
  have known : id.index < draft.fresh := by
    by_contra large
    rw [unreturned.unbound id (Nat.le_of_not_lt large)] at noted
    exact nomatch noted
  obtain ⟨below, lies, rfl⟩ := unreturned.lies_of_belongs inside shape belongs known
  have own : isOwnName draft.notes node.id below := beq_iff_eq.2 noted
  have among : below ∈ decl.body.ownDescendants := by
    rwa [unreturned.ownDescendants_body inside shape]
  rcases plan_of_returns draft.notes localName node returns with ⟨name, isPlan⟩ | ⟨_, unnamed⟩
  · rw [isPlan] at unlisted
    exact unlisted (List.mem_append_left _
      (List.mem_map.2 ⟨below, List.mem_filter.2 ⟨among, own⟩, rfl⟩))
  · rw [unnamed below among] at own
    exact nomatch own

theorem Unreturned.givesBack {body : Node} (lands : ∀ below ∈ body.descendants,
      draft.Lands node.id decl.body (draft.GivesMade node.id decl.body) below)
    (ends : ∃ last value, body.stmts.getLast? = some last ∧ last.shape = .returnStmt (some value)) :
    GivesBack (draft.returnValues localName).1.notes node.id
      ((draft.notes.descriptor? node.id).getD .object) body := by
  refine ⟨fun below lies => ?_, fun below lies given isReturn => ?_, ends⟩
  · exact beq_eq_false_iff_ne.2
      (unreturned.binding?_ne inside shape localName returns (lands below lies).belongs)
  · obtain ⟨value, isValue, listed⟩ := (lands below lies).returns given isReturn
    exact ⟨value, isValue, unreturned.descriptor?_value inside shape localName returns listed⟩

end Notes

omit unreturned inside shape in
theorem plan_of_bare (localName : String) (bare : decl.kind.returnsValue = false) :
    plan draft.notes localName node decl = .nothing (copied? draft.notes decl) :=
  if_neg (by rw [bare]; decide)

theorem Unreturned.plan_cases (localName : String) (returns : decl.kind.returnsValue) :
    namesItself draft.notes node ∧ (∃ name, plan draft.notes localName node decl =
        .result name ((draft.notes.descriptor? node.id).getD .object)) ∨
      namesItself draft.notes node = false ∧ plan draft.notes localName node decl =
        .default ((draft.notes.descriptor? node.id).getD .object) := by
  have isNamed : namesItself draft.notes node =
      decl.body.ownDescendants.any (isOwnName draft.notes node.id) := by
    rw [unreturned.ownDescendants_body inside shape, namesItself, Node.methodDecl?, shape]
    rfl
  unfold plan
  rw [isNamed, if_pos returns]
  dsimp only
  split
  · exact .inl ⟨‹_›, _, rfl⟩
  · exact .inr ⟨Bool.of_not_eq_true ‹_›, rfl⟩

theorem Unreturned.function_returns (localName : String) (returns : decl.kind.returnsValue)
    {body : Node} (isBody : ReturnValue.body draft.notes (newIds draft node.id) node decl
      (plan draft.notes localName node decl) = body) :
    (∀ below ∈ body.descendants, isExit below = false) ∧
      GivesBack (draft.returnValues localName).1.notes node.id
        ((draft.notes.descriptor? node.id).getD .object) body ∧
      (namesItself draft.notes node →
        StartsWithValue ((draft.notes.descriptor? node.id).getD .object) body) ∧
      (namesItself draft.notes node = false → ∀ below ∈ body.descendants,
        isValueVariable below = false) := by
  subst isBody
  rcases unreturned.plan_cases inside shape localName returns with
    ⟨isNamed, name, isPlan⟩ | ⟨isNamed, isPlan⟩ <;> rw [isPlan, isNamed]
  · obtain ⟨lands, starts⟩ := unreturned.lands_result inside shape
      ((draft.notes.descriptor? node.id).getD .object) name
    exact ⟨fun below lies => (lands below lies).stays,
      unreturned.givesBack inside shape localName returns lands
        (unreturned.ends_result inside shape _ name), fun _ => starts, nofun⟩
  · have rests := unreturned.rests_default inside shape
      ((draft.notes.descriptor? node.id).getD .object)
    refine ⟨fun below lies => (rests below lies).stays,
      unreturned.givesBack inside shape localName returns (fun below lies => (rests below lies).toLands)
        ?_, nofun, fun _ below lies => (rests below lies).plain⟩
    rw [stmts_body_default, List.getLast?_concat]
    exact ⟨_, _, rfl, rfl⟩

end Procedure

section Procedures

variable (unreturned : draft.Unreturned) (localName : String)

include unreturned

theorem Unreturned.exists_method {new : Node} {made : MethodDecl Node}
    (inside : new ∈ (draft.returnValues localName).1.root.descendants)
    (isMethod : new.shape = .method made) :
    ∃ old ∈ draft.root.descendants, ∃ decl, old.shape = .method decl ∧ old.id = new.id ∧
      made = { decl with
        body := ReturnValue.body draft.notes (newIds draft old.id) old decl
          (plan draft.notes localName old decl) } := by
  have notInner : new.shape.family.isInner = false := by rw [isMethod]; rfl
  obtain ⟨setting, stands⟩ := Node.exists_stands inside
  have carries := returnCarries unreturned.layers unreturned.owns localName
  rcases carries.origin ⟨.root, .inl rfl⟩ stands with ⟨old, above, carried⟩ | ⟨_, given⟩
  · have family := carries.family carried
    have isMethod' : new.shape.family = .method := by rw [isMethod]; rfl
    obtain ⟨decl, shape⟩ := (Shape.family_eq_method_iff _).1 (family.symm.trans isMethod')
    obtain ⟨_, rfl | ⟨_, _, _, inner, _⟩⟩ := carried
    · rw [mapUp_returnNode_method unreturned.layers above.mem shape] at isMethod ⊢
      exact ⟨old, above.mem, decl, shape, rfl, (Shape.method.inj isMethod).symm⟩
    · rw [← family, notInner] at inner
      exact nomatch inner
  · rw [given.inner] at notInner
    exact nomatch notInner

theorem Unreturned.countP_isFunction :
    (draft.returnValues localName).1.root.descendants.countP isFunction =
      draft.root.descendants.countP isFunction := by
  have once (draft : Draft) (tidy : draft.Tidy) :
      ((draft.root.descendants.filter isFunction).map Node.id).Nodup :=
    tidy.distinct.sublist (List.filter_sublist.map _)
  have function {node : Node} {decl : MethodDecl Node} (shape : node.shape = .method decl) :
      isFunction node = decl.kind.returnsValue := by
    rw [isFunction, Node.methodDecl?, shape]
    rfl
  have same : (((draft.returnValues localName).1.root.descendants.filter isFunction).map Node.id).Perm
      ((draft.root.descendants.filter isFunction).map Node.id) := by
    refine (List.perm_ext_iff_of_nodup (once _ (unreturned.toTidy.returnValues localName))
      (once _ unreturned.toTidy)).2 fun id => ?_
    simp only [List.mem_map, List.mem_filter]
    constructor
    · rintro ⟨new, ⟨inside, isFunction⟩, rfl⟩
      obtain ⟨made, isDecl, returns⟩ := (Option.any_eq_true ..).1 isFunction
      obtain ⟨old, among, decl, shape, named, rfl⟩ :=
        unreturned.exists_method localName inside (Node.shape_of_methodDecl? isDecl)
      exact ⟨old, ⟨among, (function shape).trans returns⟩, named⟩
    · rintro ⟨old, ⟨inside, isFunction⟩, rfl⟩
      obtain ⟨decl, isDecl, returns⟩ := (Option.any_eq_true ..).1 isFunction
      exact ⟨_, ⟨unreturned.mem_returnValues inside (Node.shape_of_methodDecl? isDecl) localName,
        returns⟩, rfl⟩
  rw [List.countP_eq_length_filter, List.countP_eq_length_filter, ← List.length_map Node.id,
    ← List.length_map Node.id]
  exact same.length_eq

theorem Unreturned.counts_eq : (draft.returnValues localName).2.results =
      draft.root.descendants.countP (fun node => isFunction node && namesItself draft.notes node) ∧
    (draft.returnValues localName).2.defaults =
      draft.root.descendants.countP fun node => isFunction node && !namesItself draft.notes node := by
  have planned {p : ReturnPlan → Bool} {q : Node → Bool}
      (agree : ∀ node ∈ draft.root.descendants, ∀ decl, node.shape = .method decl →
        p (plan draft.notes localName node decl) = (decl.kind.returnsValue && q node)) :
      (draft.plannedMethods localName).countP (p ·.plan) =
        draft.root.descendants.countP fun node => isFunction node && q node := by
    unfold plannedMethods
    rw [List.countP_filterMap]
    refine List.countP_congr fun node inside => ?_
    unfold isFunction
    cases isDecl : node.methodDecl? with
    | none => rfl
    | some decl =>
      exact Bool.eq_iff_iff.1 (agree node inside decl (Node.shape_of_methodDecl? isDecl))
  obtain ⟨results, defaults⟩ := ReturnCounts.foldl_add (draft.plannedMethods localName) {}
  refine ⟨results.trans ((Nat.zero_add _).trans (planned fun node inside decl shape => ?_)),
    defaults.trans ((Nat.zero_add _).trans (planned fun node inside decl shape => ?_))⟩ <;>
  · cases returns : decl.kind.returnsValue with
    | false => rw [plan_of_bare localName returns]; rfl
    | true =>
      rcases unreturned.plan_cases inside shape localName returns with
        ⟨isNamed, _, isPlan⟩ | ⟨isNamed, isPlan⟩ <;> rw [isPlan, isNamed] <;> rfl

theorem Unreturned.results_add_defaults : (draft.returnValues localName).2.results +
      (draft.returnValues localName).2.defaults =
    (draft.returnValues localName).1.root.descendants.countP isFunction := by
  rw [unreturned.countP_isFunction, (unreturned.counts_eq localName).1,
    (unreturned.counts_eq localName).2,
    List.countP_eq_countP_filter_add _ isFunction (namesItself draft.notes), List.countP_filter,
    List.countP_filter]

end Procedures

end Draft

namespace ScriptStore

open Draft ReturnValue

variable {store : ScriptStore} {id : ScriptId} {script : Script} {draft : Draft}

/-- What a resolved script looks like once its values are given back by returning them. No procedure is
left by an exit, and only functions return values. A function returns values of its type, at its end and
wherever else it is left; its first statement declares the variable for its value if it used its name
before, and else it has no such variable. -/
theorem resolve_returns_shape (symbols : SymbolTable) (options : MigrationOptions) (cache : MemberMemo)
    (localName : String) (listed : store.get? id = some script) (read : script.draft? = some draft)
    (prepared : draft.Prepared) :
    ∃ resolved, (store.resolve symbols options cache id).store.draft? id = some resolved ∧
      (∀ new ∈ (resolved.returnValues localName).1.root.descendants, ∀ decl,
        new.shape = .method decl →
          (∀ below ∈ decl.body.descendants, isExit below = false) ∧
          (decl.kind.returnsValue = false → ∀ below ∈ decl.body.descendants, ∀ given,
            below.shape = .returnStmt given → given = none) ∧
          (decl.kind.returnsValue → ∃ type,
            (resolved.returnValues localName).1.notes.descriptor? new.id = some type ∧
            GivesBack (resolved.returnValues localName).1.notes new.id type decl.body ∧
            ∃ old ∈ resolved.root.descendants, old.id = new.id ∧ isFunction old ∧
              (namesItself resolved.notes old → StartsWithValue type decl.body) ∧
              (namesItself resolved.notes old = false → ∀ below ∈ decl.body.descendants,
                isValueVariable below = false))) ∧
      (resolved.returnValues localName).2.results + (resolved.returnValues localName).2.defaults =
        (resolved.returnValues localName).1.root.descendants.countP isFunction ∧
      (resolved.returnValues localName).2.results = resolved.root.descendants.countP fun node =>
        isFunction node && namesItself resolved.notes node := by
  have unreturned : ((Surroundings.forScript symbols options store id script draft).resolveDraft draft
      cache).draft.Unreturned := prepared.resolveDraft_unreturned cache rfl
  refine ⟨_, by rw [(resolve_eq symbols options cache listed read).1]; exact draft?_setDraft listed, ?_⟩
  revert unreturned
  generalize ((Surroundings.forScript symbols options store id script draft).resolveDraft draft
    cache).draft = resolved
  intro unreturned
  refine ⟨fun new inside made isMethod => ?_, unreturned.results_add_defaults localName,
    (unreturned.counts_eq localName).1⟩
  obtain ⟨old, among, decl, shape, named, rfl⟩ := unreturned.exists_method localName inside isMethod
  have isDecl : old.methodDecl? = some decl := by rw [Node.methodDecl?, shape]
  cases returns : decl.kind.returnsValue with
  | false =>
    have rests := unreturned.rests_bare among shape (copied? resolved.notes decl)
    rw [plan_of_bare localName returns]
    exact ⟨fun below lies => (rests below lies).stays, fun _ below lies => (rests below lies).returns,
      fun absurd => by cases absurd⟩
  | true =>
    obtain ⟨type, isType⟩ := Option.isSome_iff_exists.1
      (unreturned.described old among (by rw [shape]; rfl))
    obtain ⟨exits, gives, starts, none'⟩ :=
      unreturned.function_returns among shape localName returns rfl
    rw [isType] at gives starts
    refine ⟨exits, (fun absurd => by cases absurd), fun _ => ⟨type, ?_, named ▸ gives,
      old, among, named, by rw [isFunction, isDecl]; exact returns, starts, none'⟩⟩
    rw [← named, (unreturned.agree_method among shape localName).descriptor, isType]

theorem exists_function {text name : String}
    (reads : (parseModule text name).toOption.any fun module =>
      module.root.children.any fun part => part.methodDecl?.any (·.kind.returnsValue)) :
    ∃ module function signature, parseModule text name = .ok module ∧
      (Draft.ofModule module).root.HasProcedure function signature ∧ signature.1.returnsValue := by
  obtain ⟨module, parsed⟩ := exists_module (Option.isSome_of_any reads)
  rw [parsed] at reads
  obtain ⟨part, isPart, isMethod⟩ := List.any_eq_true.1
    (show module.root.children.any (·.methodDecl?.any (·.kind.returnsValue)) = true from reads)
  obtain ⟨decl, isDecl, returns⟩ := (Option.any_eq_true ..).1 isMethod
  exact ⟨module, part.id, decl.signature, parsed,
    ⟨part, Node.child_mem_descendants isPart, rfl, by rw [isDecl]; rfl⟩, returns⟩

def signText : String :=
  "Function Sign(n)\n  If n < 0 Then\n    Sign = -1\n    Exit Function\n  End If\n  Sign = 1\n"
    ++ "End Function"

theorem resolve_returns_shape_sign : ∃ module resolved new decl type,
    parseModule signText "Sign" = .ok module ∧
    ((ScriptStore.alone module).resolve .empty {} (.withCapacity 8) ⟨0⟩).store.draft? ⟨0⟩ =
      some resolved ∧
    new ∈ (resolved.returnValues "result").1.root.descendants ∧ new.shape = .method decl ∧
    decl.kind.returnsValue ∧ (∀ below ∈ decl.body.descendants, isExit below = false) ∧
    (resolved.returnValues "result").1.notes.descriptor? new.id = some type ∧
    GivesBack (resolved.returnValues "result").1.notes new.id type decl.body ∧
    (resolved.returnValues "result").2.results + (resolved.returnValues "result").2.defaults =
      (resolved.returnValues "result").1.root.descendants.countP isFunction := by
  have reads : (parseModule signText "Sign").toOption.any fun module =>
      module.root.children.any fun part => part.methodDecl?.any (·.kind.returnsValue) := by
    decide +kernel
  obtain ⟨module, function, signature, parsed, has, isFunction⟩ := exists_function reads
  have prepared : (Draft.ofModule module).Prepared := .read parsed
  have listed : (ScriptStore.alone module).get? ⟨0⟩ = some _ := rfl
  obtain ⟨resolved, found, shaped, counts, _⟩ :=
    resolve_returns_shape .empty {} (.withCapacity 8) "result" listed rfl prepared
  have isResolved := found
  rw [(resolve_eq .empty {} (.withCapacity 8) listed rfl).1, draft?_setDraft listed] at isResolved
  obtain ⟨grounded, houses⟩ :=
    prepared.resolveDraft_grounded (.withCapacity 8) (Option.some.inj isResolved)
  obtain ⟨node, inside, _, isKind⟩ := houses.procedures _ _ has
  obtain ⟨decl, isDecl, same⟩ := Option.map_eq_some_iff.1 isKind
  have returns : decl.kind.returnsValue := by rw [(Prod.mk.inj same).1, isFunction]
  have changed := grounded.mem_returnValues inside (Node.shape_of_methodDecl? isDecl) "result"
  obtain ⟨exits, _, gives⟩ := shaped _ changed _ rfl
  obtain ⟨type, isType, back, _⟩ := gives returns
  exact ⟨module, resolved, _, _, type, parsed, found, changed, rfl, returns, exits, isType, back,
    counts⟩

end ScriptStore

end ScriptMigration
