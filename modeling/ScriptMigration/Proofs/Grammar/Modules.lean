import ScriptMigration.Proofs.Grammar.Statements

/-! The declarations that are read are numbered, and so is the tree of a module. A `Dim` at the top level
stands in two lists until it is decided which of them keeps it. -/
namespace ScriptMigration

namespace Declaration

open Reader Expression Statement ModuleText

abbrev GivesParam (reader : Reader Node) : Prop :=
  Gives [] reader (fun node => [node]) fun node => node.shape.family = .param

def parameterType (line : Nat) (isOptional : Bool) (passing : ParamMode) (name : String)
    (paramArray array : Bool) (bound : Nat) : Reader Node := do
  let typeName ←
    if ← eat (.keyword .kwAs) then some <$> typeName bound else pure none
  let default ←
    if ← eat (.mark .equal) then some <$> whole bound else pure none
  make (.param { name, passing, typeName, default, marks := { isOptional, paramArray, array } }) line

def parameterName (line : Nat) (isOptional : Bool) (passing : ParamMode) (bound : Nat) :
    Reader Node := do
  let paramArray ← eat (.keyword .kwParamArray)
  let name ← expectName
  if ← eat (.mark .leftParen) then
    let _ ← expect (.mark .rightParen)
    parameterType line isOptional passing name paramArray true bound
  else parameterType line isOptional passing name paramArray paramArray bound

theorem parameter_eq (bound : Nat) : parameter bound = (do
    let line ← line
    let isOptional ← eat (.keyword .kwOptional)
    if ← eat (.keyword .kwByVal) then parameterName line isOptional .byVal bound
    else
      let _ ← eat (.keyword .kwByRef)
      parameterName line isOptional .byRef bound) := rfl

theorem parameterType_gives (line : Nat) (isOptional : Bool) (passing : ParamMode) (name : String)
    (paramArray array : Bool) (bound : Nat) :
    GivesParam (parameterType line isOptional passing name paramArray array bound) := by
  refine .step (eat_idle _) fun typed => ?_
  refine .branch (fun _ => []) (fun _ => True) (.idle ((typeName_idle bound).map _))
    (.idle (.pure _)) fun typeName _ => .step (eat_idle _) fun hasDefault => ?_
  refine .branch (fun (default : Option Node) => default.toList)
    (fun default => ∀ value ∈ default.toList, value.shape.isExpression) ?_ ?_
    fun default areExpressions => ?_
  · exact (whole_gives bound).map (fun _ _ => .refl _) fun _ isExpression value listed =>
      List.mem_singleton.1 listed ▸ isExpression
  · exact .pure (.refl _) fun _ absurd => nomatch absurd
  · refine (Gives.make ?_ fun _ => ?_).mono (fun _ _ => .refl _) fun _ isShape => ?_
    · exact .refl _
    · exact .ofValues areExpressions rfl rfl
    · rw [isShape]
      rfl

theorem parameterName_gives (line : Nat) (isOptional : Bool) (passing : ParamMode) (bound : Nat) :
    GivesParam (parameterName line isOptional passing bound) := by
  refine .step (eat_idle _) fun paramArray => .step expectName_idle fun name => ?_
  refine .step (eat_idle _) fun isArray => ?_
  split
  · exact .step (expect_idle _) fun _ => parameterType_gives _ _ _ _ _ _ _
  · exact parameterType_gives _ _ _ _ _ _ _

theorem parameter_gives (bound : Nat) : GivesParam (parameter bound) := by
  rw [parameter_eq]
  refine .step line_idle fun line => .step (eat_idle _) fun isOptional => ?_
  refine .step (eat_idle _) fun isByVal => ?_
  split
  · exact parameterName_gives _ _ _ _
  · exact .step (eat_idle _) fun _ => parameterName_gives _ _ _ _

theorem parameters_gives (bound : Nat) : Gives [] (parameters bound) (fun nodes => nodes)
    fun nodes => ∀ node ∈ nodes, node.shape.family = .param := by
  refine .step (expect_idle _) fun _ => .step (eat_idle _) fun none => ?_
  split
  · exact .pure (.refl _) fun _ absurd => nomatch absurd
  · refine (Gives.nodeList (parameter_gives bound) bound).bind fun params areParams => ?_
    exact .step (expect_idle _) fun _ => .pure (.refl _) areParams

theorem procedureKind_idle (opening : TokenKind) : Idle (procedureKind opening) := by
  unfold procedureKind
  split
  · exact .pure _
  · exact .pure _
  · refine (eat_idle _).bind fun isSet => ?_
    split
    · exact .pure _
    · refine (eatWord_idle _).bind fun isGet => ?_
      split
      · exact .pure _
      · refine (eatWord_idle _).bind fun isLet => ?_
        split
        · exact .pure _
        · exact peekKind_idle.bind fun _ => stop_idle _

theorem procedure_gives (visibility : Visibility) (marks : DeclMarks) (bound : Nat) :
    GivesNode (procedure visibility marks bound) := by
  refine .step advance_idle fun first => .step (procedureKind_idle _) fun (kind, closer) => ?_
  refine .step expectName_idle fun name => .step (at?_idle _) fun hasParams => ?_
  refine .branch (fun params => params)
    (fun params => ∀ param ∈ params, param.shape.family = .param) (parameters_gives bound)
    (.pure (.refl _) fun _ absurd => nomatch absurd) fun params areParams => ?_
  refine .step (eat_idle _) fun typed => ?_
  refine .branch (fun _ => params) (fun _ => True) (.idle ((typeName_idle bound).map _))
    (.idle (.pure _)) fun returnType _ => .step expectEnd_idle fun _ => ?_
  refine .take (block_gives (Statement.read_gives bound) bound _) fun body isBlock => ?_
  refine .step (expect_idle _) fun _ => .step (expect_idle _) fun _ => ?_
  refine .step lastLine_idle fun last =>
    Gives.bind (make_node (.refl _) (fun info => ?_) fun _ => rfl) fun method plain =>
      .step expectEnd_idle fun _ => .pure (.refl _) plain
  exact .ofMethod areParams isBlock

theorem terminated_gives {reader : Reader Node}
    (each : Gives [] reader (fun node => [node]) (IsVariable .member)) (bound : Nat) :
    Gives [] (do
      let nodes ← commaList reader bound
      expectEnd
      return nodes) (fun nodes => nodes) fun nodes => ∀ node ∈ nodes, IsVariable .member node :=
  (Gives.nodeList each bound).bind fun _ fine => .step expectEnd_idle fun _ => .pure (.refl _) fine

theorem terminated_plain {reader : Reader Node}
    (each : Gives [] reader (fun node => [node]) (IsVariable .member)) (bound : Nat) :
    GivesNodes (do
      let nodes ← commaList reader bound
      expectEnd
      return nodes) :=
  (terminated_gives each bound).mono (fun _ _ => .refl _) fun _ fine node listed =>
    (fine node listed).plain

/-- The declarations of `members`, behind the words that say who sees them. -/
def declarations (visibility : Visibility) (default : Bool) (bound : Nat) : Reader (List Node) := do
  match ← peekKind with
  | .keyword .kwSub | .keyword .kwFunction | .keyword .kwProperty =>
    List.singleton <$> procedure visibility { default } bound
  | .keyword .kwConst => do
    let _ ← advance
    let nodes ← commaList (constantDecl visibility .member bound) bound
    expectEnd
    return nodes
  | .keyword .kwDim => do
    let _ ← advance
    let nodes ← commaList (variableDecl visibility .member bound) bound
    expectEnd
    return nodes
  | .identifier =>
    if visibility.isDecided then do
      let nodes ← commaList (variableDecl visibility .member bound) bound
      expectEnd
      return nodes
    else stop (.expectedDeclaration .identifier)
  | kind => stop (.expectedDeclaration kind)

theorem members_gives (bound : Nat) : GivesNodes (members bound) := by
  have declared (visibility : Visibility) (default : Bool) :
      GivesNodes (declarations visibility default bound) := by
    refine .step peekKind_idle fun kind => ?_
    split
    · exact singleton (procedure_gives _ _ _)
    · exact singleton (procedure_gives _ _ _)
    · exact singleton (procedure_gives _ _ _)
    · exact .step advance_idle fun _ => terminated_plain (constantDecl_gives _ _ _) _
    · exact .step advance_idle fun _ => terminated_plain (variableDecl_gives _ _ _) _
    · split
      · exact terminated_plain (variableDecl_gives _ _ _) _
      · exact .stop _
    · exact .stop _
  refine .step (eat_idle _) fun isPublic => ?_
  dsimp only
  split
  · exact .step (eatWord_idle _) fun default => declared .everyone default
  · refine .step (eat_idle _) fun isPrivate => ?_
    split
    · exact declared .owner false
    · exact declared .undecided false

theorem eat_of_ne {kind : TokenKind} {state : State} (differs : (state.current.kind == kind) = false) :
    eat kind state = .ok false state := by
  have isAt : at? kind state = .ok (state.current.kind == kind) state := rfl
  simp only [eat, bind, EStateM.bind, isAt, differs]
  rfl

theorem members_of_dim (bound : Nat) {state : State}
    (isDim : state.current.kind = .keyword .kwDim) :
    members bound state = (do
      let _ ← advance
      let nodes ← commaList (variableDecl .undecided .member bound) bound
      expectEnd
      return nodes) state := by
  have peeked : peekKind state = .ok (.keyword .kwDim) state := by
    rw [← isDim]
    rfl
  have notPublic : eat (.keyword .kwPublic) state = .ok false state :=
    eat_of_ne (by rw [isDim]; rfl)
  have notPrivate : eat (.keyword .kwPrivate) state = .ok false state :=
    eat_of_ne (by rw [isDim]; rfl)
  unfold members
  simp only [bind, EStateM.bind, pure, EStateM.pure, notPublic, notPrivate, peeked,
    Bool.false_eq_true, if_false]

theorem classMembers_gives {nested : Reader Node} (inner : GivesNode nested) (className : String)
    (first : Span) (bound : Nat) : GivesNodes (classMembers nested className first bound) := by
  induction bound with
  | zero => exact .exhausted
  | succ bound ih =>
    refine .step skipSeparators_idle fun _ => .step peekKind_idle fun kind => ?_
    split
    · exact .pure (.refl _) fun _ absurd => nomatch absurd
    · dsimp only
      split
      · exact .throw_bind _
      · have member : GivesNodes (if kind == .keyword .kwClass then List.singleton <$> nested
            else if startsMember kind then members (bound + 1)
            else stop (.expectedMember className kind)) := by
          split
          · exact singleton inner
          · split
            · exact members_gives _
            · exact .stop _
        refine (member.recovering rfl fun _ absurd => nomatch absurd).bind fun found plain => ?_
        exact .take ih fun later plainLater => .pure (.refl _) fun node listed =>
          (List.mem_append.1 listed).elim (plain node) (plainLater node)

theorem classDecl_gives (bound : Nat) : GivesNode (classDecl bound) := by
  induction bound with
  | zero => exact .exhausted
  | succ bound ih =>
    refine .step (expect_idle _) fun first => .step expectName_idle fun name => ?_
    refine .step expectEnd_idle fun _ => (classMembers_gives ih _ _ _).bind fun members _ => ?_
    refine .step (expect_idle _) fun _ => .step (expect_idle _) fun _ => ?_
    refine .step lastLine_idle fun last => Gives.bind (make_plain (.refl _) rfl rfl fun _ => rfl)
      fun decl plain => ?_
    exact .step expectEnd_idle fun _ => .pure (.refl _) plain

end Declaration

open Reader Expression Statement Declaration

namespace TopLevel

open ModuleText

def trees (top : TopLevel) : List Node := top.members ++ top.loose.filter (!isModuleDim ·)

def Paired (top : TopLevel) : Prop :=
  top.loose.filter isModuleDim = top.members.filter isModuleDim

theorem trees_append (first second : TopLevel) :
    (first.append second).trees.Perm (first.trees ++ second.trees) := by
  simp only [trees, append, List.filter_append, List.append_assoc]
  exact (List.perm_append_comm_assoc ..).append_left _

theorem Paired.append {first second : TopLevel} (left : first.Paired) (right : second.Paired) :
    (first.append second).Paired := by
  unfold Paired TopLevel.append at *
  rw [List.filter_append, List.filter_append, left, right]

end TopLevel

namespace ModuleText

theorem filter_plain {nodes : List Node} (plain : ∀ node ∈ nodes, isModuleDim node = false) :
    nodes.filter isModuleDim = [] ∧ nodes.filter (!isModuleDim ·) = nodes := by
  refine ⟨List.filter_eq_nil_iff.2 fun node listed => ?_, List.filter_eq_self.2 fun node listed => ?_⟩
  · rw [plain node listed]
    decide
  · rw [plain node listed]
    rfl

theorem markModuleDim_covers (node : Node) : Covers [node] [markModuleDim node] := by
  rcases node with ⟨info, shape⟩
  cases shape with
  | field decl => exact .node rfl rfl fun regular => ⟨regular.parts, regular.unsigned⟩
  | _ => exact .refl _

theorem asLocal_covers (node : Node) : Covers [node] [asLocal node] := by
  rcases node with ⟨info, shape⟩
  cases shape with
  | field decl => exact .node rfl rfl fun regular => ⟨regular.parts, regular.unsigned⟩
  | _ => exact .refl _

theorem isModuleDim_markModuleDim {node : Node} (isVariable : IsVariable .member node) :
    isModuleDim (markModuleDim node) = true := by
  obtain ⟨decl, shape, _⟩ := isVariable
  unfold markModuleDim
  rw [shape]
  rfl

def ofDim (decls : List Node) : TopLevel :=
  { members := decls.map markModuleDim, loose := decls.map markModuleDim }

theorem ofDim_gives {reader : Reader (List Node)} (declared : Gives [] reader (fun nodes => nodes)
      fun nodes => ∀ node ∈ nodes, IsVariable .member node) :
    Gives [] (reader >>= fun decls => pure (ofDim decls)) TopLevel.trees TopLevel.Paired := by
  refine declared.bind fun decls areVariables => ?_
  refine .covered (.pure ?_ rfl) (.map markModuleDim_covers decls)
  have none : (decls.map markModuleDim).filter (!isModuleDim ·) = [] := by
    refine List.filter_eq_nil_iff.2 fun node listed => ?_
    obtain ⟨decl, among, rfl⟩ := List.mem_map.1 listed
    rw [isModuleDim_markModuleDim (areVariables decl among)]
    decide
  rw [TopLevel.trees, ofDim, none, List.append_nil]

theorem item_of_dim (bound : Nat) {state : State} (isDim : state.current.kind = .keyword .kwDim) :
    item bound state = ((do
      let _ ← advance
      let nodes ← commaList (variableDecl .undecided .member bound) bound
      expectEnd
      return nodes) >>= fun decls => pure (ofDim decls)) state := by
  have peeked : peekKind state = .ok (.keyword .kwDim) state := by
    rw [← isDim]
    rfl
  unfold item
  simp only [bind, EStateM.bind, peeked]
  change EStateM.bind (members bound) _ state = _
  unfold EStateM.bind
  rw [members_of_dim bound isDim]
  rfl

theorem item_of_other (bound : Nat) {state : State} (other : state.current.kind ≠ .keyword .kwDim) :
    item bound state = (
      if state.current.kind == .keyword .kwOption then do
        let _ ← advance
        expectWord "explicit"
        expectEnd
        return { explicit := true }
      else if state.current.kind == .keyword .kwClass then
        return { members := [← classDecl bound], classes := 1 }
      else if startsMember state.current.kind then
        return { members := ← members bound }
      else do
        let loose ← Statement.read bound
        expectEnd
        return { loose } : Reader TopLevel) state := by
  have notDim : (state.current.kind == .keyword .kwDim) = false := beq_false_of_ne other
  have peeked : peekKind state = .ok state.current.kind state := rfl
  unfold item
  simp only [bind, EStateM.bind, peeked, notDim, Bool.false_eq_true, if_false]

theorem item_gives (bound : Nat) : Gives [] (item bound) TopLevel.trees TopLevel.Paired := by
  intro low state start numbered
  by_cases isDim : state.current.kind = .keyword .kwDim
  · rw [item_of_dim bound isDim]
    refine ofDim_gives ?_ low state start numbered
    exact .step advance_idle fun _ => terminated_gives (variableDecl_gives _ _ _) _
  · rw [item_of_other bound isDim]
    refine (show Gives [] _ TopLevel.trees TopLevel.Paired from ?_) low state start numbered
    split
    · refine .step advance_idle fun _ => .step (expectWord_idle _) fun _ => ?_
      exact .step expectEnd_idle fun _ => .pure (.refl _) rfl
    · split
      · refine (classDecl_gives bound).bind fun decl plain => ?_
        obtain ⟨none, all⟩ := filter_plain (List.forall_mem_singleton.2 plain)
        exact .pure (.refl _) none.symm
      · split
        · refine (members_gives bound).bind fun decls plain => ?_
          obtain ⟨none, _⟩ := filter_plain plain
          refine .pure ?_ none.symm
          simp only [TopLevel.trees, List.filter_nil, List.append_nil]
          exact .refl _
        · refine (Statement.read_gives bound).bind fun loose plain => ?_
          obtain ⟨none, all⟩ := filter_plain plain
          refine .step expectEnd_idle fun _ => .pure ?_ none
          simp only [TopLevel.trees, all, List.nil_append]
          exact .refl _

theorem items_gives (bound : Nat) : Gives [] (items bound) TopLevel.trees TopLevel.Paired := by
  induction bound with
  | zero => exact .exhausted
  | succ bound ih =>
    refine .step skipSeparators_idle fun _ => .step (at?_idle _) fun isEnd => ?_
    split
    · exact .pure (.refl _) rfl
    · have recovered : Gives [] (recovering (item (bound + 1)) {}) TopLevel.trees TopLevel.Paired :=
        (item_gives _).recovering rfl rfl
      refine recovered.bind fun first left => ?_
      exact .take ih fun rest right => .pure (first.trees_append rest).subperm (left.append right)

theorem folded?_eq_some {declaration assignment joined : Node}
    (found : folded? declaration assignment = some joined) :
    ∃ decl isSet target value name, declaration.shape = .localVar decl ∧ decl.init = none ∧
      decl.array = none ∧ assignment.shape = .assign isSet target value ∧
      target.nameText? = some name ∧ sameName name decl.name ∧
      joined = declaration.withShape (.localVar { decl with init := some value }) := by
  unfold folded? at found
  split at found
  · rename_i decl isSet target value declares assigns
    split at found
    · rename_i fits
      simp only [Bool.and_eq_true, Option.isNone_iff_eq_none] at fits
      obtain ⟨⟨empty, plain⟩, named⟩ := fits
      obtain ⟨name, isName, same⟩ := Option.any_eq_true _ _ |>.1 named
      exact ⟨decl, isSet, target, value, name, declares, empty, plain, assigns, isName, same,
        (Option.some.inj found).symm⟩
    · exact nomatch found
  · exact nomatch found

theorem folded?_covers {declaration next joined : Node}
    (folds : folded? declaration next = some joined) : Covers [declaration, next] [joined] := by
  obtain ⟨decl, isSet, target, value, _, declares, noInit, noArray, assigns, _, _, rfl⟩ :=
    folded?_eq_some folds
  rcases declaration with ⟨info, shape⟩
  rcases next with ⟨info', shape'⟩
  obtain rfl : shape = .localVar decl := declares
  obtain rfl : shape' = .assign isSet target value := assigns
  have before : (Node.mk info (.localVar decl)).descendants = [.mk info (.localVar decl)] := by
    simp [Node.descendants_eq, Node.children, Node.shape, Shape.children, Shape.varParts,
      noInit, noArray]
  have after : (Node.mk info (.localVar { decl with init := some value })).descendants =
      .mk info (.localVar { decl with init := some value }) :: value.descendants := by
    simp [Node.descendants_eq (.mk info _), Node.children, Node.shape, Shape.children,
      Shape.varParts, noArray]
  have assigned : (Node.mk info' (.assign isSet target value)).descendants =
      .mk info' (.assign isSet target value) :: (target.descendants ++ value.descendants) := by
    simp [Node.descendants_eq (.mk info' _), Node.children, Node.shape, Shape.children]
  constructor
  · simp only [List.flatMap_cons, List.flatMap_nil, List.append_nil, before, assigned,
      List.map_append, List.map_cons, List.map_nil]
    change (List.map Node.info (Node.mk info _).descendants).Subperm _
    rw [after]
    refine (List.Sublist.subperm ?_)
    exact .cons_cons _ (.cons _ (List.sublist_append_right _ _))
  · intro regular node inside
    simp only [List.flatMap_cons, List.flatMap_nil, List.append_nil, assigned,
      List.mem_append, List.mem_cons] at regular
    change node ∈ [Node.mk info _].flatMap Node.descendants at inside
    rw [List.flatMap_singleton, after] at inside
    rcases List.mem_cons.1 inside with rfl | inside
    · have assigns := regular _ (.inr (.inl rfl))
      exact ⟨assigns.parts, rfl⟩
    · exact regular node (.inr (.inr (.inr inside)))

theorem joinInitializers_covers (stmts : List Node) : Covers stmts (joinInitializers stmts) := by
  fun_induction joinInitializers stmts with
  | case1 declaration next rest joined folds ih => exact (folded?_covers folds).append ih
  | case2 declaration next rest _ ih => exact (Covers.refl [declaration]).append ih
  | case3 stmts _ => exact .refl _

theorem constructor?_gives (kept : List Node) (name : String) (body : List Node) :
    Gives (kept ++ body) (constructor? name body) (fun node => kept ++ node.toList)
      fun _ => True := by
  unfold constructor?
  split
  · exact .pure (.refl _) trivial
  · refine Gives.bind (.make_keeping kept (.refl _) fun _ => .ofNone rfl rfl) fun block isBlock => ?_
    refine .map (.make_keeping kept (.refl _) fun _ => ?_) (fun _ _ => .refl _) fun _ _ => trivial
    exact .ofMethod (List.forall_mem_nil _) (isBlock ▸ rfl)

def staysMember (top : TopLevel) (node : Node) : Bool :=
  !isModuleDim node || node.declName?.any fun name =>
    (usedNames top.members).contains (FoldedName.of name)

theorem trees_split {top : TopLevel} (paired : top.Paired) :
    (top.members.filter (staysMember top) ++ top.loose.filter fun node =>
      !(isModuleDim node && staysMember top node)).Subperm top.trees := by
  have plain (node : Node) (unmarked : isModuleDim node = false) :
      staysMember top node = true := by
    simp [staysMember, unmarked]
  generalize staysMember top = isField at *
  have looseParts : (top.loose.filter fun node => !(isModuleDim node && isField node)).Perm
      (top.members.filter (fun node => isModuleDim node && !isField node) ++
        top.loose.filter (!isModuleDim ·)) := by
    have marked : top.loose.filter (fun node => isModuleDim node && !isField node) =
        top.members.filter (fun node => isModuleDim node && !isField node) := by
      have both := congrArg (List.filter (!isField ·)) paired
      simpa only [List.filter_filter, Bool.and_comm] using both
    rw [← marked]
    refine (List.filter_append_perm isModuleDim _).symm.trans ?_
    simp only [List.filter_filter]
    refine .append (.of_eq ?_) (.of_eq ?_)
    · refine List.filter_congr fun node _ => ?_
      cases isModuleDim node <;> cases isField node <;> rfl
    · refine List.filter_congr fun node _ => ?_
      cases isModuleDim node <;> cases isField node <;> rfl
  have kept : (top.members.filter isField ++
      top.members.filter fun node => isModuleDim node && !isField node).Perm top.members := by
    refine .trans (.of_eq ?_) (List.filter_append_perm isField top.members)
    congr 1
    refine List.filter_congr fun node _ => ?_
    cases marked : isModuleDim node with
    | true => rfl
    | false => rw [plain node marked]; rfl
  refine ((looseParts.append_left _).trans ?_).subperm
  rw [← List.append_assoc]
  exact kept.append_right _

theorem shape_gives (name : String) {top : TopLevel} (paired : top.Paired) :
    Gives top.trees (shape name top) (fun node => [node]) fun _ => True := by
  unfold shape
  split
  · rename_i isMember isLoose
    refine .pure ?_ trivial
    rw [TopLevel.trees, isMember, isLoose]
    exact .refl _
  · dsimp only
    have covers : Covers top.trees (top.members.filter (staysMember top) ++ joinInitializers
        ((top.loose.filter fun node => !(isModuleDim node && staysMember top node)).map
          asLocal)) := by
      refine (Covers.ofSubperm (trees_split paired)).trans ?_
      exact (Covers.refl _).append
        ((Covers.map asLocal_covers _).trans (joinInitializers_covers _))
    refine .covered ((constructor?_gives _ name _).bind fun constructor _ => ?_) covers
    refine .step lastLine_idle fun last => ?_
    refine (Gives.make ?_ fun _ => .ofNone rfl rfl).mono (fun _ _ => .refl _) fun _ _ => trivial
    have order (first second : List Node) : (first ++ constructor.toList ++ second).Perm
        (first ++ second ++ constructor.toList) := by
      rw [List.append_assoc, List.append_assoc]
      exact List.perm_append_comm.append_left _
    have whole := order ((top.members.filter (staysMember top)).takeWhile (·.shape.isField))
      ((top.members.filter (staysMember top)).dropWhile (·.shape.isField))
    rw [List.takeWhile_append_dropWhile] at whole
    exact whole.subperm

end ModuleText

theorem Attachment.attachComments_numbered {low high : Nat} {root : Node}
    (numbered : Numbered low high [root]) (comments : List Comment) :
    Numbered low high [attachComments root comments] := by
  unfold attachComments
  dsimp only
  split
  · exact numbered
  · rename_i owned
    generalize (comments.map fun comment => (owner root _ comment.line, comment)) = owned
    have adds : Node.Adds (fun node => node.withInfo { node.info with
        comments := node.info.comments ++ (owned.filter (·.1 == node.id)).map (·.2) })
        fun _ => [] := .ofMarks fun node => by rcases node with ⟨info, shape⟩; exact ⟨rfl, rfl, rfl⟩
    obtain ⟨distinct, range, regular⟩ := numbered
    rw [List.flatMap_singleton] at distinct range regular
    have ids := adds.ids_mapUp_of_none root
    constructor <;> rw [List.flatMap_singleton]
    · exact ids.nodup_iff.2 distinct
    · intro node inside
      obtain ⟨old, among, same⟩ := List.mem_map.1 (ids.subset (List.mem_map.2 ⟨node, inside, rfl⟩))
      rw [← same]
      exact range old among
    · refine Node.regular_mapUp adds.family (fun old _ regular below inside => ?_) regular
      generalize old.rebuilt _ = node at regular inside
      rcases node with ⟨info, shape⟩
      rcases Node.mem_descendants_cases inside with rfl | ⟨part, isPart, deeper⟩
      · have own := regular (.mk info shape) (Node.mem_descendants_self _)
        exact ⟨own.parts, own.unsigned⟩
      · exact regular below (Node.mem_descendants_of_child isPart deeper)

theorem ModuleText.read_gives (bound : Nat) (name : String) : Gives [] (do
    let items ← items bound
    return (items, ← shape name items)) (fun (_, root) => [root]) fun _ => True := by
  refine (items_gives _).bind fun items paired => ?_
  exact (shape_gives name paired).bind fun root _ => .pure (.refl _) trivial

theorem parseModule_made {text name : String} {module : Module}
    (parsed : parseModule text name = .ok module) : ∃ root, Made 0 module.fresh [root] ∧
      module.root = Attachment.attachComments root (lex text).comments := by
  unfold parseModule at parsed
  dsimp only at parsed
  split at parsed
  · exact nomatch parsed
  · have given := ModuleText.read_gives ((lex text).tokens.length + 1) name 0 (.start (lex text))
      (Nat.zero_le _) .nil
    split at parsed
    · exact nomatch parsed
    · rename_i items root state found
      rw [found] at given
      split at parsed
      · exact nomatch parsed
      · obtain rfl := Except.ok.inj parsed
        exact ⟨root, given.2.1, rfl⟩

theorem parseModule_numbered {text name : String} {module : Module}
    (parsed : parseModule text name = .ok module) : Numbered 0 module.fresh [module.root] := by
  obtain ⟨root, made, whole⟩ := parseModule_made parsed
  rw [whole]
  exact Attachment.attachComments_numbered made.toNumbered _

end ScriptMigration
