import ScriptMigration.Proofs.Grammar.StatementLayers

/-! The tree of a module that is read is in layers. What stands at the top level of a text ends up as a
member of the type or in the body of its constructor. -/
namespace ScriptMigration

open Reader Expression Statement

namespace Declaration

abbrev YieldsMembers (reader : Reader (List Node)) : Prop :=
  Yields reader fun nodes => ∀ node ∈ nodes, node.FitsIn .type ∧ node.Spelt

theorem param_yields {decl : ParamDecl Node} {line : Nat}
    (fine : ∀ value ∈ decl.default.toList, value.Is .expression) :
    Yields (make (.param decl) line) (Node.Is .param) :=
  Leads.node (nomatch ·) rfl fun part inside => (fine part inside).fitsIn rfl

theorem parameterType_yields (line : Nat) (isOptional : Bool) (passing : ParamMode) (name : String)
    (paramArray array : Bool) (bound : Nat) :
    Yields (parameterType line isOptional passing name paramArray array bound) (Node.Is .param) := by
  refine .anyThen fun typed => ?_
  refine .branch (fun _ => True) (.any _ _) (.any _ _) fun typeName _ => .anyThen fun _ => ?_
  refine .branch (fun default : Option Node => ∀ value ∈ default.toList, value.Is .expression) ?_ ?_
    fun default fine => param_yields fine
  · exact (whole_yields bound).map fun _ fine _ listed => List.mem_singleton.1 listed ▸ fine
  · exact .pure fun _ _ _ absurd => nomatch absurd

theorem parameterName_yields (line : Nat) (isOptional : Bool) (passing : ParamMode) (bound : Nat) :
    Yields (parameterName line isOptional passing bound) (Node.Is .param) := by
  refine .anyThen fun paramArray => .anyThen fun name => .anyThen fun isArray => ?_
  split
  · exact .anyThen fun _ => parameterType_yields _ _ _ _ _ _ _
  · exact parameterType_yields _ _ _ _ _ _ _

theorem parameter_yields (bound : Nat) : Yields (parameter bound) (Node.Is .param) := by
  rw [parameter_eq]
  refine .anyThen fun line => .anyThen fun isOptional => .anyThen fun isByVal => ?_
  split
  · exact parameterName_yields _ _ _ _
  · exact .anyThen fun _ => parameterName_yields _ _ _ _

theorem parameters_yields (bound : Nat) :
    Yields (parameters bound) fun params => ∀ param ∈ params, param.Is .param := by
  refine .anyThen fun _ => .anyThen fun none => ?_
  split
  · exact .pure fun _ _ _ absurd => nomatch absurd
  · refine (Leads.commaList (parameter_yields bound) bound).take fun params fine => ?_
    exact .anyThen fun _ => .pure fun _ _ => fine

theorem type_is {info : NodeInfo} {name : String} {visibility : Visibility} {members : List Node}
    {marks : TypeMarks} (shown : visibility != .owner)
    (fine : ∀ member ∈ members, member.FitsIn .type) :
    (Node.mk info (.type { name, visibility, members, marks })).Is .type :=
  Node.is_of_parts nofun shown fine

theorem method_is {info : NodeInfo} {decl : MethodDecl Node}
    (areParams : ∀ param ∈ decl.params, param.FitsIn .method) (isBody : decl.body.Is .block) :
    (Node.mk info (.method decl)).Is .method := by
  have layered : (Node.mk info (.method decl)).Layered :=
    Node.layered_method (fun param listed => (areParams param listed).1) isBody.1
  refine ⟨rfl, .ofParts ⟨layered, rfl⟩ fun part inside => ?_⟩
  rcases List.mem_append.1 (show part ∈ decl.params ++ [decl.body] from inside) with listed | isLast
  · exact (areParams part listed).2
  · rw [List.mem_singleton.1 isLast]
    exact isBody.2

theorem procedureKind_yields (opening : TokenKind) :
    Yields (procedureKind opening) fun (kind, _) => kind.isLifecycle = false := by
  unfold procedureKind
  split
  · exact .pure fun _ _ => rfl
  · exact .pure fun _ _ => rfl
  · refine .anyThen fun isSet => ?_
    dsimp only
    split
    · exact .pure fun _ _ => rfl
    · refine .anyThen fun isGet => ?_
      split
      · exact .pure fun _ _ => rfl
      · refine .anyThen fun isLet => ?_
        split
        · exact .pure fun _ _ => rfl
        · exact .anyThen fun _ => .stop

theorem procedure_yields (visibility : Visibility) (marks : DeclMarks) (bound : Nat) :
    Yields (procedure visibility marks bound) fun node => node.Is .method ∧ node.Spelt := by
  refine .anyThen fun first => (procedureKind_yields _).take fun (kind, closer) spelt => ?_
  refine .anyThen fun name => ?_
  refine .anyThen fun hasParams => ?_
  refine .branch (fun params => ∀ param ∈ params, param.Is .param) (parameters_yields bound)
    (.pure fun _ _ _ absurd => nomatch absurd) fun params areParams => .anyThen fun typed => ?_
  refine .branch (fun _ => True) (.any _ _) (.any _ _) fun returnType _ => .anyThen fun _ => ?_
  refine (block_yields (Statement.read_yields bound) bound _).take fun body isBody => ?_
  refine .anyThen fun _ => .anyThen fun _ => .anyThen fun last => ?_
  have made : Yields (make (.method { name, visibility, kind, params, returnType, body, marks })
      first.span.line last) fun node => node.Is .method ∧ node.Spelt := by
    refine .make fun _ _ _ => ?_
    refine and_iff_left_of_imp (fun is => ?_) |>.2
      (method_is (fun param listed => (areParams param listed).fitsIn rfl) isBody)
    exact .ofLayers is.2.layers nofun nofun (by simpa [Node.shape, Shape.isSpelt] using spelt)
  exact made.take fun method fine => .anyThen fun _ => .pure fun _ _ => fine

theorem terminated_yields {reader : Reader Node} (each : Yields reader (Node.Is .field)) (bound : Nat) :
    Yields (do
      let nodes ← commaList reader bound
      expectEnd
      return nodes) fun nodes => ∀ node ∈ nodes, node.Is .field :=
  (Leads.commaList each bound).take fun _ fine => .anyThen fun _ => .pure fun _ _ => fine

abbrev YieldsDeclared (reader : Reader (List Node)) : Prop :=
  Yields reader fun nodes => ∀ node ∈ nodes, node.Is .field ∨ node.Is .method ∧ node.Spelt

theorem spelt_of_field {node : Node} (is : node.Is .field) : node.Spelt :=
  .ofLayers is.2.layers (is.1 ▸ nofun) (is.1 ▸ nofun)
    (Shape.isSpelt_of_family (is.1 ▸ nofun) (is.1 ▸ nofun))

theorem terminated_declared {reader : Reader Node} (each : Yields reader (Node.Is .field))
    (bound : Nat) : YieldsDeclared (do
      let nodes ← commaList reader bound
      expectEnd
      return nodes) :=
  (terminated_yields each bound).mono fun _ fine node listed => .inl (fine node listed)

theorem members_declared (bound : Nat) : YieldsDeclared (members bound) := by
  have single {reader : Reader Node}
      (yields : Yields reader fun node => node.Is .method ∧ node.Spelt) :
      YieldsDeclared (List.singleton <$> reader) :=
    singleton_yields (yields.mono fun _ => .inr)
  have declared (visibility : Visibility) (default : Bool) :
      YieldsDeclared (declarations visibility default bound) := by
    refine .anyThen fun kind => ?_
    split
    · exact single (procedure_yields _ _ _)
    · exact single (procedure_yields _ _ _)
    · exact single (procedure_yields _ _ _)
    · exact .anyThen fun _ => terminated_declared (constantDecl_yields _ _ _) _
    · exact .anyThen fun _ => terminated_declared (variableDecl_yields _ _ _) _
    · split
      · exact terminated_declared (variableDecl_yields _ _ _) _
      · exact .stop
    · exact .stop
  refine .anyThen fun isPublic => ?_
  dsimp only
  split
  · exact .anyThen fun default => declared .everyone default
  · refine .anyThen fun isPrivate => ?_
    split
    · exact declared .owner false
    · exact declared .undecided false

theorem members_yields (bound : Nat) : YieldsMembers (members bound) :=
  (members_declared bound).mono fun _ fine node listed =>
    (fine node listed).elim (fun is => ⟨is.fitsIn rfl, spelt_of_field is⟩)
      fun ⟨is, spelt⟩ => ⟨is.fitsIn rfl, spelt⟩

theorem classMembers_yields {nested : Reader Node}
    (inner : Yields nested fun node => node.Is .type ∧ node.Spelt)
    (className : String) (first : Span) (bound : Nat) :
    YieldsMembers (classMembers nested className first bound) := by
  induction bound with
  | zero => exact .stop
  | succ bound ih =>
    refine .anyThen fun _ => .anyThen fun kind => ?_
    split
    · exact .pure fun _ _ _ absurd => nomatch absurd
    · dsimp only
      split
      · exact .throw_bind
      · have member : YieldsMembers (if kind == .keyword .kwClass then List.singleton <$> nested
            else if startsMember kind then members (bound + 1)
            else stop (.expectedMember className kind)) := by
          split
          · exact singleton_yields (inner.mono fun _ fine => ⟨fine.1.fitsIn rfl, fine.2⟩)
          · split
            · exact members_yields _
            · exact .stop
        have none : ∀ node ∈ ([] : List Node), node.FitsIn .type ∧ node.Spelt :=
          List.forall_mem_nil _
        refine (Leads.recovering member none).take fun found fine => ?_
        exact ih.take fun later areFine => .pure fun _ _ =>
          List.forall_mem_append.2 ⟨fine, areFine⟩

theorem classDecl_yields (bound : Nat) :
    Yields (classDecl bound) fun node => node.Is .type ∧ node.Spelt := by
  induction bound with
  | zero => exact .stop
  | succ bound ih =>
    refine .anyThen fun first => .anyThen fun name => .anyThen fun _ => ?_
    refine (classMembers_yields ih _ _ _).take fun members fine => .anyThen fun _ => ?_
    refine .anyThen fun _ => .anyThen fun last => ?_
    have made : Yields (make (.type { name, members }) first.span.line last) fun node =>
        node.Is .type ∧ node.Spelt :=
      .make fun _ _ _ => ⟨type_is rfl fun node listed => (fine node listed).1,
        .ofParts rfl fun node listed => (fine node listed).2⟩
    exact made.take fun decl isType => .anyThen fun _ => .pure fun _ _ => isType

end Declaration

/-- The members of a type as a text declares them: none is a property or a destructor, and one at most
is a constructor. -/
structure DeclaredMembers (members : List Node) : Prop where
  constructor : ∀ member ∈ members, member.shape.isSpelt = false →
    ∃ decl, member.shape = .method decl ∧ decl.kind = .constructor
  single : members.countP (fun member => !member.shape.isSpelt) ≤ 1

def Node.Declared (root : Node) : Prop :=
  ∀ type ∈ root.descendants, ∀ decl, type.shape = .type decl → DeclaredMembers decl.members

theorem Node.Spelt.declared {root : Node} (spelt : root.Spelt) : root.Declared := by
  intro type inside decl shape
  have areSpelt : ∀ member ∈ decl.members, member.shape.isSpelt := by
    intro member listed
    refine ((spelt.below inside).child ?_).here
    rwa [Node.children, shape]
  constructor
  · intro member listed differs
    simp [areSpelt member listed] at differs
  · rw [List.countP_eq_zero.2]
    · simp
    · intro member listed
      simp [areSpelt member listed]

theorem Node.Declared.ofMade {root : Node} {decl : TypeDecl Node} {before after : List Node}
    {made : Option Node} (shape : root.shape = .type decl)
    (members : decl.members = before ++ made.toList ++ after)
    (spelt : ∀ member ∈ before ++ after, member.Spelt)
    (isConstructor : ∀ node ∈ made, node.InLayers ∧
      ∃ method, node.shape = .method method ∧ method.kind = .constructor) : root.Declared := by
  have cases : ∀ member ∈ decl.members, member.Spelt ∨ member ∈ made := by
    simp only [members, List.mem_append, Option.mem_toList] at spelt ⊢
    rintro member ((listed | isMade) | listed)
    · exact .inl (spelt member (.inl listed))
    · exact .inr isMade
    · exact .inl (spelt member (.inr listed))
  have here : DeclaredMembers decl.members := by
    constructor
    · intro member listed differs
      rcases cases member listed with isSpelt | isMade
      · simp [isSpelt.here] at differs
      · exact (isConstructor member isMade).2
    · have none : (before ++ after).countP (fun member => !member.shape.isSpelt) = 0 :=
        List.countP_eq_zero.2 fun member listed => by simp [(spelt member listed).here]
      have one : made.toList.countP (fun member => !member.shape.isSpelt) ≤ 1 :=
        List.countP_le_length.trans (by cases made <;> simp)
      simp only [List.countP_append] at none
      simp only [members, List.countP_append]
      omega
  intro type inside other isType
  rcases Node.mem_descendants_cases inside with rfl | ⟨part, isPart, deeper⟩
  · rw [shape] at isType
    obtain rfl := Shape.type.inj isType
    exact here
  · rw [Node.children, shape] at isPart
    rcases cases part isPart with isSpelt | isMade
    · exact isSpelt.declared type deeper other isType
    · obtain ⟨layers, method, isMethod, -⟩ := isConstructor part isMade
      rcases layers.inner_below (by simp [isMethod, Shape.family])
        (by simp [isMethod, Shape.family]) deeper with rfl | ⟨noType, -⟩
      · simp [isMethod] at isType
      · simp [isType, Shape.family] at noType

theorem Node.Declared.mapUp_of_shape {root : Node} {f : Node → Node}
    (kept : ∀ node : Node, (f node).shape = node.shape) (declared : root.Declared) :
    (root.mapUp f).Declared := by
  intro type inside decl shape
  rw [Node.descendants_mapUp kept] at inside
  obtain ⟨old, among, rfl⟩ := List.mem_map.1 inside
  have spelt (member : Node) : (member.mapUp f).shape.isSpelt = member.shape.isSpelt := by
    simp [Node.shape_mapUp kept]
  obtain ⟨oldDecl, isType⟩ : ∃ oldDecl, old.shape = .type oldDecl := by
    have family := congrArg Shape.family shape
    rw [Node.shape_mapUp kept, Shape.family_mapParts] at family
    exact (Shape.family_eq_type_iff _).1 family
  rw [Node.mapUp_eq, kept, Node.shape_rebuilt_of_type isType] at shape
  obtain rfl := Shape.type.inj shape
  obtain ⟨constructor, single⟩ := declared old among oldDecl isType
  constructor
  · intro member listed differs
    obtain ⟨source, isMember, rfl⟩ := List.mem_map.1 listed
    rw [spelt] at differs
    obtain ⟨method, isMethod, kind⟩ := constructor source isMember differs
    rw [Node.mapUp_eq, kept, Node.shape_rebuilt_of_method isMethod]
    exact ⟨_, rfl, kind⟩
  · rw [List.countP_map]
    simpa [Function.comp_def, spelt] using single

namespace ModuleText

open Declaration

/-- What stands at the top level is a member, or can stand in a block once it is a local variable. -/
structure InLayers (top : TopLevel) : Prop where
  members : ∀ node ∈ top.members, node.FitsIn .type ∧ node.Spelt
  loose : ∀ node ∈ top.loose, (asLocal node).FitsIn .block

theorem asLocal_of_block {node : Node} (fits : node.FitsIn .block) : asLocal node = node := by
  rcases node with ⟨info, shape⟩
  cases shape with
  | field decl => exact nomatch fits.1
  | _ => rfl

theorem markModuleDim_is {node : Node} (is : node.Is .field) : (markModuleDim node).Is .field := by
  obtain ⟨info, shape⟩ := node
  cases shape with
  | field decl =>
    exact Node.is_of_parts (nomatch ·) is.2.here.written fun part inside =>
      ⟨is.2.here.parts part inside, is.2.child inside⟩
  | _ => exact is

theorem asLocal_is {node : Node} (is : node.Is .field) : (asLocal node).Is .localVar := by
  obtain ⟨info, shape⟩ := node
  cases shape with
  | field decl =>
    refine Node.is_of_parts (nomatch ·) is.2.here.written fun part inside => ⟨?_, is.2.child inside⟩
    have held := is.2.here.parts part inside
    revert held
    cases part.shape.family <;> exact id
  | _ => simp [Node.Is, Node.shape, Shape.family, Shape.isExpression] at is

theorem ofDim_inLayers {decls : List Node} (fine : ∀ decl ∈ decls, decl.Is .field) :
    InLayers (ofDim decls) := by
  have marked : ∀ node ∈ decls.map markModuleDim, node.Is .field := by
    intro node listed
    obtain ⟨decl, among, rfl⟩ := List.mem_map.1 listed
    exact markModuleDim_is (fine decl among)
  exact ⟨fun node listed => ⟨(marked node listed).fitsIn rfl, spelt_of_field (marked node listed)⟩,
    fun node listed => (asLocal_is (marked node listed)).fitsIn rfl⟩

theorem item_yields (bound : Nat) : Yields (item bound) InLayers := by
  intro state value later starts returns
  by_cases isDim : state.current.kind = .keyword .kwDim
  · rw [item_of_dim bound isDim] at returns
    refine (show Yields _ InLayers from ?_) state value later starts returns
    refine Leads.take ?_ fun decls fine => .pure fun _ _ => ofDim_inLayers fine
    exact .anyThen fun _ => terminated_yields (variableDecl_yields _ _ _) _
  · rw [item_of_other bound isDim] at returns
    refine (show Yields _ InLayers from ?_) state value later starts returns
    split
    · exact .anyThen fun _ => .anyThen fun _ => .anyThen fun _ => .pure fun _ _ =>
        ⟨List.forall_mem_nil _, List.forall_mem_nil _⟩
    · split
      · exact (classDecl_yields bound).take fun decl isType => .pure fun _ _ =>
          ⟨List.forall_mem_singleton.2 ⟨isType.1.fitsIn rfl, isType.2⟩, List.forall_mem_nil _⟩
      · split
        · exact (members_yields bound).take fun decls fine => .pure fun _ _ =>
            ⟨fine, List.forall_mem_nil _⟩
        · refine (Statement.read_yields bound).take fun loose fine => .anyThen fun _ => ?_
          refine .pure fun _ _ => ⟨List.forall_mem_nil _, fun node listed => ?_⟩
          rw [asLocal_of_block (fine node listed)]
          exact fine node listed

theorem items_yields (bound : Nat) : Yields (items bound) InLayers := by
  induction bound with
  | zero => exact .stop
  | succ bound ih =>
    have none : InLayers {} := ⟨List.forall_mem_nil _, List.forall_mem_nil _⟩
    refine .anyThen fun _ => .anyThen fun isEnd => ?_
    split
    · exact .pure fun _ _ => none
    · refine (Leads.recovering (item_yields (bound + 1)) none).take fun first left => ?_
      exact ih.take fun rest right => .pure fun _ _ =>
        ⟨List.forall_mem_append.2 ⟨left.members, right.members⟩,
          List.forall_mem_append.2 ⟨left.loose, right.loose⟩⟩

theorem folded?_fits {declaration next joined : Node} (first : declaration.FitsIn .block)
    (fits : next.FitsIn .block) (regular : next.Regular) (folds : folded? declaration next = some joined) :
    joined.FitsIn .block := by
  obtain ⟨decl, isSet, target, value, _, declares, _, noArray, assigns, _, _, rfl⟩ :=
    folded?_eq_some folds
  obtain ⟨info, shape⟩ := declaration
  obtain ⟨info', shape'⟩ := next
  obtain rfl : shape = .localVar decl := declares
  obtain rfl : shape' = .assign isSet target value := assigns
  have assigned : value ∈ (Node.mk info' (.assign isSet target value)).children := by
    simp [Node.children, Node.shape, Shape.children]
  have isValue : value.Is .expression :=
    ⟨regular.parts (.expression, value) List.mem_cons_self, fits.2.child assigned⟩
  have is : (Node.mk info (.localVar { decl with init := some value })).Is .localVar := by
    refine Node.is_of_parts (fun absurd => by cases absurd) first.2.here.written fun part inside => ?_
    have only : part = value := by
      simpa [Shape.children, Shape.varParts, noArray] using inside
    rw [only]
    exact isValue.fitsIn rfl
  exact is.fitsIn rfl

theorem joinInitializers_fit {stmts : List Node} (fine : ∀ stmt ∈ stmts, stmt.FitsIn .block)
    (regular : ∀ stmt ∈ stmts, stmt.Regular) : ∀ stmt ∈ joinInitializers stmts, stmt.FitsIn .block := by
  fun_induction joinInitializers stmts with
  | case1 declaration next rest joined folds ih =>
    obtain ⟨isFirst, isNext, areRest⟩ := by simpa only [List.forall_mem_cons] using fine
    obtain ⟨_, nextRegular, restRegular⟩ := by simpa only [List.forall_mem_cons] using regular
    exact List.forall_mem_cons.2 ⟨folded?_fits isFirst isNext nextRegular folds,
      ih areRest restRegular⟩
  | case2 declaration next rest _ ih =>
    obtain ⟨isFirst, areRest⟩ := List.forall_mem_cons.1 fine
    exact List.forall_mem_cons.2 ⟨isFirst, ih areRest (List.forall_mem_cons.1 regular).2⟩
  | case3 stmts _ => exact fine

theorem constructor?_yields (name : String) {body : List Node}
    (fine : ∀ stmt ∈ body, stmt.FitsIn .block) :
    Yields (constructor? name body) fun made => ∀ node ∈ made, node.Is .method ∧
      ∃ method, node.shape = .method method ∧ method.kind = .constructor := by
  unfold constructor?
  split
  · exact .pure fun _ _ _ absurd => nomatch absurd
  · refine Leads.take (Statement.items_yields fine) fun block isBlock => ?_
    have made (line lastLine : Nat) : Yields (make (.method {
        name, visibility := .everyone, kind := .constructor, body := block
        marks := { synthesized := true } }) line lastLine) fun node => node.Is .method ∧
          ∃ method, node.shape = .method method ∧ method.kind = .constructor :=
      .make fun _ _ _ => ⟨method_is (List.forall_mem_nil _) isBlock, _, rfl, rfl⟩
    exact (made _ _).map fun _ is _ same => Option.some.inj same ▸ is

theorem shape_yields (name : String) {top : TopLevel} (layers : InLayers top)
    (regular : ∀ node ∈ top.loose, node.Regular) :
    Yields (shape name top) fun root => root.AsRead ∧ root.Declared := by
  unfold shape
  split
  · rename_i isMember _
    have isDecl := layers.members
    rw [isMember] at isDecl
    obtain ⟨fits, spelt⟩ := List.forall_mem_singleton.1 isDecl
    exact .pure fun _ _ => ⟨fits.2, spelt.declared⟩
  · dsimp only
    have fine : ∀ node ∈ joinInitializers ((top.loose.filter fun node =>
        !(isModuleDim node && staysMember top node)).map asLocal), node.FitsIn .block := by
      refine joinInitializers_fit (fun stmt listed => ?_) fun stmt listed => ?_
      · obtain ⟨node, among, rfl⟩ := List.mem_map.1 listed
        exact layers.loose node (List.mem_of_mem_filter among)
      · obtain ⟨node, among, rfl⟩ := List.mem_map.1 listed
        have isRegular := regular node (List.mem_of_mem_filter among)
        obtain ⟨info, shape⟩ := node
        cases shape <;> exact ⟨isRegular.parts, isRegular.unsigned⟩
    refine (constructor?_yields name fine).take fun constructor isConstructor => .anyThen fun last => ?_
    have members : ∀ node ∈ top.members.filter (staysMember top), node.FitsIn .type ∧ node.Spelt :=
      fun node listed => layers.members node (List.mem_of_mem_filter listed)
    refine .make fun _ _ _ => ⟨(type_is rfl fun node inside => ?_).2,
      .ofMade rfl rfl (fun node listed => ?_) fun node made => ?_⟩
    · rcases List.mem_append.1 (show node ∈ _ ++ _ from inside) with inside | after
      · rcases List.mem_append.1 inside with before | made
        · exact (members node ((List.takeWhile_sublist _).subset before)).1
        · exact (isConstructor node (Option.mem_toList.1 made)).1.fitsIn rfl
      · exact (members node ((List.dropWhile_sublist _).subset after)).1
    · rw [List.takeWhile_append_dropWhile] at listed
      exact (members node listed).2
    · obtain ⟨is, kind⟩ := isConstructor node made
      exact ⟨is.2.layers, kind⟩

theorem read_yields (bound : Nat) (name : String) : Yields (do
    let items ← items bound
    return (items, ← shape name items)) fun (_, root) => root.AsRead ∧ root.Declared := by
  refine Leads.take (Leads.regular (items_yields bound) (items_gives bound)) fun top fine => ?_
  obtain ⟨layers, paired, regular⟩ := fine
  have looseRegular : ∀ node ∈ top.loose, node.Regular := by
    intro node listed
    refine regular node (List.mem_flatMap.2 ⟨node, ?_, node.mem_descendants_self⟩)
    cases marked : isModuleDim node with
    | true =>
      have both : node ∈ top.members.filter isModuleDim := by
        rw [← paired]
        exact List.mem_filter.2 ⟨listed, marked⟩
      exact List.mem_append_left _ (List.mem_of_mem_filter both)
    | false =>
      refine List.mem_append_right _ (List.mem_filter.2 ⟨listed, ?_⟩)
      rw [marked]
      rfl
  exact (shape_yields name layers looseRegular).take fun root fine => .pure fun _ _ => fine

end ModuleText

theorem parseModule_read {text name : String} {module : Module}
    (parsed : parseModule text name = .ok module) : ∃ root : Node, root.AsRead ∧ root.Declared ∧
      module.root = Attachment.attachComments root (lex text).comments := by
  unfold parseModule at parsed
  dsimp only at parsed
  split at parsed
  · exact nomatch parsed
  · split at parsed
    · exact nomatch parsed
    · rename_i items root state found
      have ⟨layers, declared⟩ := ModuleText.read_yields _ name _ _ _ trivial found
      split at parsed
      · exact nomatch parsed
      · obtain rfl := Except.ok.inj parsed
        exact ⟨root, layers, declared, rfl⟩

theorem parseModule_asRead {text name : String} {module : Module}
    (parsed : parseModule text name = .ok module) : module.root.AsRead := by
  obtain ⟨root, layers, -, whole⟩ := parseModule_read parsed
  rw [whole]
  unfold Attachment.attachComments
  dsimp only
  split
  · exact layers
  · exact layers.mapUp_of_shape fun _ => rfl

theorem parseModule_declared {text name : String} {module : Module}
    (parsed : parseModule text name = .ok module) : module.root.Declared := by
  obtain ⟨root, -, declared, whole⟩ := parseModule_read parsed
  rw [whole]
  unfold Attachment.attachComments
  dsimp only
  split
  · exact declared
  · exact declared.mapUp_of_shape fun _ => rfl

theorem exists_module_of_any {text name : String} {holds : Module → Bool}
    (reads : (parseModule text name).toOption.any holds) :
    ∃ module, parseModule text name = .ok module ∧ holds module := by
  cases parsed : parseModule text name with
  | ok module => exact ⟨module, rfl, by simpa [parsed, Except.toOption] using reads⟩
  | error faults => simp [parsed, Except.toOption] at reads

end ScriptMigration
