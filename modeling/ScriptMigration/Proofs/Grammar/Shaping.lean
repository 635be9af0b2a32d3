import ScriptMigration.Proofs.Grammar.Folding
import ScriptMigration.Proofs.Grammar.ModuleLayers

/-! What becomes of the top level of a text. Read as one list in the order of the text, it is dealt out
to the members of a type and to the statements of its constructor: each item goes to one of the two, and
each of the two is in the order of the text. -/
namespace ScriptMigration

open Reader

inductive TopItem where
  | optionExplicit
  | classDecl (decl : Node)
  /-- A procedure, or a field that is `Public`, `Private` or `Const`. -/
  | member (decl : Node)
  /-- One variable of a `Dim`. -/
  | dim (field : Node)
  | loose (stmt : Node)

namespace TopItem

open ModuleText

def isOption : TopItem → Bool
  | optionExplicit => true
  | _ => false

def isClass : TopItem → Bool
  | classDecl _ => true
  | _ => false

def member? : TopItem → Option Node
  | classDecl decl | member decl => some decl
  | dim field => some (markModuleDim field)
  | optionExplicit | loose _ => none

def loose? : TopItem → Option Node
  | dim field => some (markModuleDim field)
  | loose stmt => some stmt
  | optionExplicit | classDecl _ | member _ => none

def read (bound : Nat) : Reader (List TopItem) := do
  let kind ← peekKind
  if kind == .keyword .kwOption then
    let _ ← advance
    expectWord "explicit"
    expectEnd
    return [optionExplicit]
  else if kind == .keyword .kwClass then
    return [classDecl (← Declaration.classDecl bound)]
  else if kind == .keyword .kwDim then
    return (← Declaration.members bound).map dim
  else if Declaration.startsMember kind then
    return (← Declaration.members bound).map member
  else
    let stmts ← Statement.read bound
    expectEnd
    return stmts.map loose

def readAll : (bound : Nat) → Reader (List TopItem)
  | 0 => exhausted
  | bound + 1 => do
    skipSeparators
    if ← at? .endOfText then return []
    let first ← recovering (read (bound + 1)) []
    return first ++ (← readAll bound)

/-- An item is of its kind, and only a `Dim` is marked as one. -/
def Sound : TopItem → Prop
  | optionExplicit => True
  | classDecl decl => decl.Is .type
  | member decl => (decl.Is .field ∨ decl.Is .method) ∧ isModuleDim decl = false
  | dim field => field.Is .field
  | loose stmt => stmt.FitsIn .block ∧ isModuleDim stmt = false

end TopItem

def TopLevel.ofItems (items : List TopItem) : TopLevel where
  explicit := items.any TopItem.isOption
  members := items.filterMap TopItem.member?
  loose := items.filterMap TopItem.loose?
  classes := items.countP TopItem.isClass

namespace Reader

variable {α β : Type}

theorem map_eq (f : α → β) (reader : Reader α) (state : State) :
    (f <$> reader) state = match reader state with
      | .ok value after => .ok (f value) after
      | .error fault after => .error fault after := by
  change EStateM.map f reader state = _
  unfold EStateM.map
  cases reader state <;> rfl

theorem Leads.lastLine {before : State → Prop} :
    Leads before lastLine fun _ state => before state := by
  intro state value later starts returns
  obtain ⟨-, rfl⟩ := EStateM.Result.ok.inj returns
  exact starts

theorem recovering_map (f : α → β) (reader : Reader α) (fallback : α) :
    recovering (f <$> reader) (f fallback) = f <$> recovering reader fallback := by
  have falls (fault : SyntaxFault) : (do note fault; skipLine; return f fallback : Reader β) =
      f <$> (do note fault; skipLine; return fallback : Reader α) := by
    simp only [map_bind, map_pure]
  funext state
  rw [map_eq]
  unfold recovering
  rw [map_eq]
  cases reader state with
  | ok value after => rfl
  | error fault after => exact (congrFun (falls fault) after).trans (map_eq f _ after)

end Reader

namespace TopLevel

open TopItem ModuleText

theorem ofItems_append (first second : List TopItem) :
    ofItems (first ++ second) = (ofItems first).append (ofItems second) := by
  simp only [ofItems, append, List.any_append, List.filterMap_append, List.countP_append]

theorem ofItems_dims (fields : List Node) : ofItems (fields.map dim) = ofDim fields := by
  simp [ofItems, ofDim, List.any_map, List.filterMap_map, List.countP_map, Function.comp_def,
    isOption, member?, loose?, isClass, List.filterMap_eq_map']

theorem ofItems_members (decls : List Node) :
    ofItems (decls.map member) = { members := decls } := by
  simp [ofItems, List.any_map, List.filterMap_map, List.countP_map, Function.comp_def,
    isOption, member?, loose?, isClass]

theorem ofItems_loose (stmts : List Node) : ofItems (stmts.map .loose) = { loose := stmts } := by
  simp [ofItems, List.any_map, List.filterMap_map, List.countP_map, Function.comp_def,
    isOption, member?, loose?, isClass]

theorem item_eq (bound : Nat) : item bound = ofItems <$> TopItem.read bound := by
  unfold item TopItem.read
  rw [map_bind]
  congr 1
  funext kind
  by_cases isOption : kind == .keyword .kwOption
  · simp only [if_pos isOption, map_bind, map_pure]
    rfl
  by_cases isClass : kind == .keyword .kwClass
  · simp only [if_neg isOption, if_pos isClass, map_bind, map_pure]
    rfl
  by_cases isDim : kind == .keyword .kwDim
  · have starts : Declaration.startsMember kind = true := by
      rw [eq_of_beq isDim]
      rfl
    simp only [if_neg isOption, if_neg isClass, if_pos isDim, if_pos starts, map_bind, map_pure,
      ofItems_dims]
    rfl
  by_cases starts : Declaration.startsMember kind = true
  · simp only [if_neg isOption, if_neg isClass, if_neg isDim, if_pos starts, map_bind, map_pure,
      ofItems_members]
  · simp only [if_neg isOption, if_neg isClass, if_neg isDim, if_neg starts, map_bind, map_pure,
      ofItems_loose]

theorem items_eq (bound : Nat) : items bound = ofItems <$> readAll bound := by
  induction bound with
  | zero => rfl
  | succ bound ih =>
    have item : recovering (item (bound + 1)) {} =
        ofItems <$> recovering (TopItem.read (bound + 1)) [] := by
      rw [item_eq]
      exact recovering_map ofItems _ []
    unfold items readAll
    rw [item, ih]
    simp only [map_bind]
    refine bind_congr fun _ => bind_congr fun isEnd => ?_
    cases isEnd with
    | true => rfl
    | false =>
      simp only [Bool.false_eq_true, if_false, map_bind, map_pure, bind_map_left, ofItems_append]

end TopLevel

namespace TopItem

open ModuleText Declaration

theorem dim_yields (bound : Nat) :
    Leads (fun state => state.current.kind = .keyword .kwDim) (members bound)
      fun nodes _ => ∀ node ∈ nodes, node.Is .field := by
  intro state nodes later isDim returns
  rw [members_of_dim bound isDim] at returns
  have yields : Yields (do
      let _ ← advance
      let nodes ← commaList (Statement.variableDecl .undecided .member bound) bound
      expectEnd
      return nodes) fun nodes => ∀ node ∈ nodes, node.Is .field :=
    .anyThen fun _ => terminated_yields (Statement.variableDecl_yields _ _ _) _
  exact yields state nodes later trivial returns

theorem read_yields (bound : Nat) :
    Yields (TopItem.read bound) fun items => ∀ item ∈ items, item.Sound := by
  refine Leads.peekKind.bind fun kind => ?_
  split
  · exact .anyThen fun _ => .anyThen fun _ => .anyThen fun _ => .pure fun _ _ =>
      List.forall_mem_singleton.2 trivial
  split
  · refine ((classDecl_yields bound).weaken (fun _ _ => trivial) fun _ _ is => is).take
      fun decl isType => .pure fun _ _ => List.forall_mem_singleton.2 isType.1
  split
  · rename_i isDim
    refine ((dim_yields bound).weaken (fun _ known => known.2.trans (eq_of_beq isDim))
      fun _ _ areFields => areFields).take fun fields areFields => .pure fun _ _ => ?_
    exact List.forall_mem_map.2 areFields
  split
  · refine ((members_declared bound).regular (members_gives bound) |>.weaken
      (fun _ _ => trivial) fun _ _ fine => fine).take fun decls fine => .pure fun _ _ => ?_
    exact List.forall_mem_map.2 fun decl listed =>
      ⟨(fine.1 decl listed).imp_right And.left, fine.2.1 decl listed⟩
  · refine ((Statement.read_yields bound).regular (Statement.read_gives bound) |>.weaken
      (fun _ _ => trivial) fun _ _ fine => fine).take fun stmts fine => .anyThen fun _ => ?_
    exact .pure fun _ _ => List.forall_mem_map.2 fun stmt listed =>
      ⟨fine.1 stmt listed, fine.2.1 stmt listed⟩

theorem readAll_yields (bound : Nat) :
    Yields (readAll bound) fun items => ∀ item ∈ items, item.Sound := by
  induction bound with
  | zero => exact .stop
  | succ bound ih =>
    refine .anyThen fun _ => .anyThen fun isEnd => ?_
    split
    · exact .pure fun _ _ => List.forall_mem_nil _
    · refine (Leads.recovering (read_yields (bound + 1)) (List.forall_mem_nil _)).take
        fun first fine => ih.take fun rest areFine => .pure fun _ _ => ?_
      exact List.forall_mem_append.2 ⟨fine, areFine⟩

def Uses (items : List TopItem) (name : String) : Prop :=
  ∃ decl : Node, decl.Mentions name ∧
    (.classDecl decl ∈ items ∨ .member decl ∈ items ∧ decl.shape.isMethod)

/-- How the items are dealt out to the members of a type and to the statements of its constructor. The
variable of a `Dim` is a member if its name is used, and a local variable if it is not. -/
inductive Deals (used : String → Prop) : List TopItem → (members stmts : List Node) → Prop where
  | nil : Deals used [] [] []
  | option {items : List TopItem} {members stmts : List Node} (rest : Deals used items members stmts) :
      Deals used (.optionExplicit :: items) members stmts
  | classDecl {decl : Node} {items : List TopItem} {members stmts : List Node}
      (rest : Deals used items members stmts) :
      Deals used (.classDecl decl :: items) (decl :: members) stmts
  | member {decl : Node} {items : List TopItem} {members stmts : List Node}
      (rest : Deals used items members stmts) :
      Deals used (.member decl :: items) (decl :: members) stmts
  | field {field : Node} {decl : VarDecl Node} {items : List TopItem} {members stmts : List Node}
      (declares : field.shape = .field decl) (isUsed : used decl.name)
      (rest : Deals used items members stmts) :
      Deals used (.dim field :: items) (markModuleDim field :: members) stmts
  | localVar {field : Node} {decl : VarDecl Node} {items : List TopItem} {members stmts : List Node}
      (declares : field.shape = .field decl) (unused : ¬ used decl.name)
      (rest : Deals used items members stmts) :
      Deals used (.dim field :: items) members (asLocal (markModuleDim field) :: stmts)
  | loose {stmt : Node} {items : List TopItem} {members stmts : List Node}
      (rest : Deals used items members stmts) :
      Deals used (.loose stmt :: items) members (stmt :: stmts)

theorem unmarked_of_type {node : Node} (is : node.Is .type) : isModuleDim node = false := by
  obtain ⟨info, shape⟩ := node
  cases shape with
  | field decl | localVar decl => exact nomatch is.1
  | _ => rfl

theorem marked_of_field {field : Node} {decl : VarDecl Node} (declares : field.shape = .field decl) :
    isModuleDim (markModuleDim field) = true ∧ (markModuleDim field).declName? = some decl.name := by
  unfold markModuleDim
  rw [declares]
  exact ⟨rfl, rfl⟩

theorem exists_decl_of_field {field : Node} (is : field.Is .field) :
    ∃ decl, field.shape = .field decl := by
  obtain ⟨info, shape⟩ := field
  cases shape with
  | field decl => exact ⟨decl, rfl⟩
  | _ => simp [Node.Is, Node.shape, Shape.family, Shape.isExpression] at is

theorem not_scope_of_field {node : Node} (is : node.Is .field) :
    ¬ (node.shape.isMethod = true ∨ node.shape.isType = true) := by
  rw [Shape.isMethod_eq, Shape.isType_eq, is.1]
  decide

theorem deals_filter {used : String → Prop} {stays : Node → Bool}
    (plain : ∀ node, isModuleDim node = false → stays node = true)
    (marked : ∀ field decl, field.shape = .field decl →
      (stays (markModuleDim field) = true ↔ used decl.name))
    {items : List TopItem} (sound : ∀ item ∈ items, item.Sound) :
    Deals used items ((TopLevel.ofItems items).members.filter stays)
      (((TopLevel.ofItems items).loose.filter fun node =>
        !(isModuleDim node && stays node)).map asLocal) := by
  induction items with
  | nil => exact .nil
  | cons item rest ih =>
    obtain ⟨isSound, areSound⟩ := List.forall_mem_cons.1 sound
    have further := ih areSound
    simp only [TopLevel.ofItems] at further ⊢
    cases item with
    | optionExplicit => exact .option further
    | classDecl decl =>
      have kept := plain decl (unmarked_of_type isSound)
      simpa only [List.filterMap_cons, member?, loose?, List.filter_cons_of_pos kept]
        using .classDecl further
    | member decl =>
      have kept := plain decl isSound.2
      simpa only [List.filterMap_cons, member?, loose?, List.filter_cons_of_pos kept]
        using .member further
    | dim field =>
      obtain ⟨decl, declares⟩ := exists_decl_of_field isSound
      have isDim := (marked_of_field declares).1
      cases stay : stays (markModuleDim field) with
      | true =>
        have isUsed := (marked field decl declares).1 stay
        simpa [member?, loose?, isDim, stay] using Deals.field declares isUsed further
      | false =>
        have unused : ¬ used decl.name := fun isUsed =>
          nomatch stay.symm.trans ((marked field decl declares).2 isUsed)
        simpa [member?, loose?, isDim, stay] using Deals.localVar declares unused further
    | loose stmt =>
      have asIs := asLocal_of_block isSound.1
      simpa [List.filterMap_cons, member?, loose?, isSound.2, asIs] using Deals.loose further

theorem mem_usedNames_iff {items : List TopItem} (sound : ∀ item ∈ items, item.Sound)
    (name : String) :
    FoldedName.of name ∈ usedNames (TopLevel.ofItems items).members ↔ Uses items name := by
  have mentions (decl : Node) : FoldedName.of name ∈
      decl.descendants.filterMap (fun node => node.nameText?.map FoldedName.of) ↔
        decl.Mentions name := by
    simp only [List.mem_filterMap, Option.map_eq_some_iff, Node.Mentions, Option.any_eq_true,
      sameName, beq_iff_eq]
  simp only [usedNames, List.mem_flatMap, List.mem_filter, mentions, TopLevel.ofItems,
    List.mem_filterMap, Bool.or_eq_true]
  constructor
  · rintro ⟨decl, ⟨⟨item, listed, isMember⟩, kind⟩, named⟩
    refine ⟨decl, named, ?_⟩
    have isSound := sound item listed
    cases item with
    | optionExplicit | loose _ => cases isMember
    | classDecl other => exact .inl (Option.some.inj isMember ▸ listed)
    | member other =>
      obtain rfl := Option.some.inj isMember
      rcases isSound.1 with isField | isMethod
      · exact absurd kind (not_scope_of_field isField)
      · exact .inr ⟨listed, by rw [Shape.isMethod_eq, isMethod.1]; rfl⟩
    | dim field =>
      obtain rfl := Option.some.inj isMember
      exact absurd kind (not_scope_of_field (markModuleDim_is isSound))
  · rintro ⟨decl, named, listed | ⟨listed, isMethod⟩⟩
    · have isType : decl.Is .type := sound _ listed
      exact ⟨decl, ⟨⟨_, listed, rfl⟩, .inr (by rw [Shape.isType_eq, isType.1]; rfl)⟩, named⟩
    · exact ⟨decl, ⟨⟨_, listed, rfl⟩, .inl isMethod⟩, named⟩

def essential (items : List TopItem) : List TopItem := items.filter (!·.isOption)

theorem ofItems_essential (items : List TopItem) :
    (TopLevel.ofItems (essential items)).members = (TopLevel.ofItems items).members ∧
      (TopLevel.ofItems (essential items)).loose = (TopLevel.ofItems items).loose ∧
      (TopLevel.ofItems (essential items)).classes = (TopLevel.ofItems items).classes := by
  simp only [TopLevel.ofItems, essential, List.filterMap_filter, List.countP_filter]
  refine ⟨List.filterMap_congr fun item _ => ?_, List.filterMap_congr fun item _ => ?_,
    List.countP_congr fun item _ => ?_⟩
  all_goals cases item <;> simp [isOption, isClass, member?, loose?]

theorem eq_nil_of_bare {items : List TopItem} (proper : ∀ item ∈ items, item.isOption = false)
    (members : items.filterMap member? = []) (loose : items.filterMap loose? = []) : items = [] := by
  cases items with
  | nil => rfl
  | cons first rest =>
    cases first with
    | optionExplicit => exact nomatch proper _ List.mem_cons_self
    | classDecl | member | dim => exact nomatch members
    | loose => exact nomatch loose

theorem essential_eq_iff (items : List TopItem) (decl : Node) :
    essential items = [.classDecl decl] ↔ (TopLevel.ofItems items).classes = 1 ∧
      (TopLevel.ofItems items).members = [decl] ∧ (TopLevel.ofItems items).loose = [] := by
  obtain ⟨members, loose, classes⟩ := ofItems_essential items
  rw [← members, ← loose, ← classes]
  have proper : ∀ item ∈ essential items, item.isOption = false := fun item listed => by
    simpa using (List.mem_filter.1 listed).2
  generalize essential items = items at proper
  constructor
  · rintro rfl
    exact ⟨rfl, rfl, rfl⟩
  · rintro ⟨classes, members, loose⟩
    match items with
    | [] => exact nomatch members
    | first :: rest =>
      obtain ⟨-, areProper⟩ := List.forall_mem_cons.1 proper
      cases first with
      | optionExplicit => exact nomatch proper _ List.mem_cons_self
      | dim | loose => exact nomatch loose
      | classDecl other =>
        obtain ⟨rfl, none⟩ := List.cons.inj members
        rw [eq_nil_of_bare areProper none loose]
      | member other =>
        obtain ⟨rfl, none⟩ := List.cons.inj members
        obtain rfl := eq_nil_of_bare areProper none loose
        exact nomatch classes

end TopItem

namespace ModuleText

open TopItem

def IsConstructor (name : String) (body : List Node) (node : Node) : Prop :=
  ∃ block : Node, block.shape = .block body ∧ node.shape = .method {
    name, visibility := .everyone, kind := .constructor, body := block
    marks := { synthesized := true } }

/-- A type that no one wrote. Behind the fields that its members begin with stands a constructor that
runs the statements, if there are any. -/
structure ImplicitType (name : String) (members body : List Node) (constructor : Option Node)
    (root : Node) : Prop where
  none_iff : constructor = none ↔ body = []
  runs : ∀ node ∈ constructor, IsConstructor name body node
  shape : root.shape = .type {
    name, visibility := .everyone, marks := { implicit := true }
    members := members.takeWhile (·.shape.isField) ++ constructor.toList ++
      members.dropWhile (·.shape.isField) }

/-- What is made of the top level of a text: one class by itself is the class, and anything else a type
with the name of the module. -/
inductive Shaped (name : String) (items : List TopItem) (root : Node) : Prop where
  | ofClass (only : essential items = [.classDecl root]) : Shaped name items root
  | implicit {members stmts body : List Node} {constructor : Option Node}
      (other : ∀ decl, essential items ≠ [.classDecl decl])
      (deals : Deals (Uses items) items members stmts) (expands : Expands body stmts)
      (isType : ImplicitType name members body constructor root) : Shaped name items root

theorem constructor?_leads (name : String) (body : List Node) (noted : List SyntaxFault) :
    Leads (fun state => state.noted = noted) (constructor? name body) fun constructor state =>
      state.noted = noted ∧ (constructor = none ↔ body = []) ∧
        ∀ node ∈ constructor, IsConstructor name body node := by
  cases body with
  | nil => exact .pure fun _ silent => ⟨silent, iff_of_true rfl rfl, nofun⟩
  | cons first rest =>
    have madeBlock (line last : Nat) : Leads (fun state => state.noted = noted)
        (make (.block (first :: rest)) line last) fun block state =>
          state.noted = noted ∧ block.shape = .block (first :: rest) :=
      .make fun info state silent => ⟨silent, rfl⟩
    refine (madeBlock _ _).bind fun block => ?_
    have madeMethod (line last : Nat) : Leads (fun state => state.noted = noted ∧
        block.shape = .block (first :: rest)) (make (.method {
          name, visibility := .everyone, kind := .constructor, body := block
          marks := { synthesized := true } }) line last) fun node state =>
            state.noted = noted ∧ IsConstructor name (first :: rest) node :=
      .make fun info state known => ⟨known.1, block, known.2, rfl⟩
    rw [map_eq_pure_bind]
    refine (madeMethod _ _).bind fun node => .pure fun state known => ?_
    refine ⟨known.1, ⟨nofun, nofun⟩, fun made same => ?_⟩
    obtain rfl := Option.some.inj same
    exact known.2

theorem staysMember_dim {items : List TopItem} (sound : ∀ item ∈ items, item.Sound) {field : Node}
    {decl : VarDecl Node} (declares : field.shape = .field decl) :
    staysMember (.ofItems items) (markModuleDim field) = true ↔ Uses items decl.name := by
  obtain ⟨isDim, named⟩ := marked_of_field declares
  rw [← mem_usedNames_iff sound]
  simp [staysMember, isDim, named]

theorem shape_leads (name : String) {items : List TopItem} (sound : ∀ item ∈ items, item.Sound)
    (noted : List SyntaxFault) :
    Leads (fun state => state.noted = noted) (shape name (.ofItems items)) fun root state =>
      state.noted = noted ∧ Shaped name items root := by
  have plain (node : Node) (unmarked : isModuleDim node = false) :
      staysMember (.ofItems items) node = true := by
    rw [staysMember, unmarked]
    rfl
  have deals : Deals (Uses items) items _ _ :=
    deals_filter plain (fun field decl declares => staysMember_dim sound declares) sound
  unfold shape
  split
  · rename_i decl isOne isMember isNil
    exact .pure fun _ silent =>
      ⟨silent, .ofClass ((essential_eq_iff items decl).2 ⟨isOne, isMember, isNil⟩)⟩
  · rename_i other
    have notClass (decl : Node) : essential items ≠ [.classDecl decl] := by
      intro only
      obtain ⟨isOne, isMember, isNil⟩ := (essential_eq_iff items decl).1 only
      exact other decl isOne isMember isNil
    refine (constructor?_leads name _ noted).bind fun constructor => ?_
    refine Leads.lastLine.bind fun last => .make fun info state known => ⟨known.1, ?_⟩
    exact .implicit notClass deals (joinInitializers_expands _) ⟨known.2.1, known.2.2, rfl⟩

theorem read_shaped (name : String) (bound : Nat) (start : State) :
    Leads (· = start) (do
      let items ← items bound
      return (items, ← shape name items)) fun (top, root) last => ∃ items after,
        readAll bound start = .ok items after ∧ after.noted = last.noted ∧
        (∀ item ∈ items, item.Sound) ∧ top.explicit = items.any isOption ∧ Shaped name items root := by
  have first : Leads (· = start) (items bound) fun top after => ∃ items,
      readAll bound start = .ok items after ∧ top = .ofItems items := by
    rintro state top after rfl returns
    rw [TopLevel.items_eq, map_eq] at returns
    split at returns
    · rename_i items after isRead
      obtain ⟨rfl, rfl⟩ := EStateM.Result.ok.inj returns
      exact ⟨items, isRead, rfl⟩
    · exact nomatch returns
  refine first.bind fun top after read last known returns => ?_
  obtain ⟨items, isRead, rfl⟩ := known
  have sound := readAll_yields bound start items after trivial isRead
  have second : Leads (fun state => state.noted = after.noted) (do
      return (TopLevel.ofItems items, ← shape name (.ofItems items))) fun read last =>
        after.noted = last.noted ∧ read.1.explicit = items.any isOption ∧ Shaped name items read.2 :=
    (shape_leads name sound after.noted).bind fun root => .pure fun _ known =>
      ⟨known.1.symm, rfl, known.2⟩
  have ⟨noted, rest⟩ := second after read last rfl returns
  exact ⟨items, after, isRead, noted, sound, rest⟩

end ModuleText

namespace Attachment

def withComments (attached : NodeId → List Comment) (root : Node) : Node :=
  root.mapUp fun node =>
    node.withInfo { node.info with comments := node.info.comments ++ attached node.id }

/-- The declarations that comments can go to, but for the root. -/
def declarations (root : Node) : List Place := (root.places.drop 1).filter (·.node.shape.isMember)

def owned (root : Node) (comments : List Comment) (id : NodeId) : List Comment :=
  comments.filter fun comment => owner root (declarations root) comment.line == id

theorem attachComments_eq_owned (root : Node) (comments : List Comment) :
    attachComments root comments = withComments (owned root comments) root := by
  have mine (id : NodeId) : ((comments.map fun comment =>
      (owner root (declarations root) comment.line, comment)).filter (·.1 == id)).map (·.2) =
        owned root comments id := by
    rw [List.filter_map, List.map_map]
    exact List.map_id _
  have whole : attachComments root comments = if comments.isEmpty then root else
      withComments (owned root comments) root := by
    unfold attachComments withComments
    dsimp only
    rw [List.isEmpty_map]
    simp only [← mine]
    rfl
  rw [whole]
  split
  · rename_i none
    obtain rfl := List.isEmpty_iff.1 none
    refine (Node.mapUp_of_fixed fun node _ => ?_).symm
    obtain ⟨⟨id, line, lastLine, comments⟩, shape⟩ := node
    simp [Node.withInfo, Node.info, Node.shape, owned]
  · rfl

theorem attachComments_eq (root : Node) (comments : List Comment) :
    ∃ attached, attachComments root comments = withComments attached root :=
  ⟨_, attachComments_eq_owned root comments⟩

end Attachment

open ModuleText TopItem in
/-- When a text is read as a module, its top level is a list of items. One class by itself is the root.
For any other list the root is a type that holds, in the order of the text, every item that is not a
loose statement or an unused `Dim`; and these, in the order of the text and with no more changed than
that an assignment can have become the initial value of the variable declared before it, are what the
constructor behind the leading fields runs. There is none if and only if there are none of them. -/
theorem parseModule_shapes {text name : String} {module : Module}
    (parsed : parseModule text name = .ok module) : ∃ items after root attached,
      readAll ((lex text).tokens.length + 1) (.start (lex text)) = .ok items after ∧
      after.noted = [] ∧ (∀ item ∈ items, item.Sound) ∧ module.explicit = items.any isOption ∧
      Shaped name items root ∧ module.root = Attachment.withComments attached root ∧
      module.root.Distinct := by
  have distinct := (parseModule_numbered parsed).distinct
  rw [List.flatMap_singleton] at distinct
  unfold parseModule at parsed
  dsimp only at parsed
  split at parsed
  · exact nomatch parsed
  split at parsed
  · exact nomatch parsed
  rename_i top root last found
  split at parsed
  · exact nomatch parsed
  rename_i silent
  obtain rfl := Except.ok.inj parsed
  obtain ⟨items, after, isRead, noted, sound, explicit, shaped⟩ :=
    read_shaped name _ _ _ _ _ rfl found
  obtain ⟨attached, whole⟩ := Attachment.attachComments_eq root (lex text).comments
  refine ⟨items, after, root, attached, isRead, ?_, sound, explicit, shaped, whole, distinct⟩
  simpa [noted] using silent

open ModuleText TopItem in
theorem parseModule_shapes_dim : ∃ module,
    parseModule "Public p\nDim x\nErase x" "Test" = .ok module ∧
    module.root.children.map Node.declName? = [some "p", some "Test"] ∧
    ∃ items after root attached,
      readAll ((lex "Public p\nDim x\nErase x").tokens.length + 1)
        (.start (lex "Public p\nDim x\nErase x")) = .ok items after ∧
      Shaped "Test" items root ∧ module.root = Attachment.withComments attached root := by
  have reads : (parseModule "Public p\nDim x\nErase x" "Test").toOption.any
      (·.root.children.map Node.declName? == [some "p", some "Test"]) := by
    decide +kernel
  cases parsed : parseModule "Public p\nDim x\nErase x" "Test" with
  | error faults =>
    rw [parsed] at reads
    exact nomatch reads
  | ok module =>
    rw [parsed] at reads
    obtain ⟨items, after, root, attached, isRead, -, -, -, shaped, whole, -⟩ :=
      parseModule_shapes parsed
    exact ⟨module, rfl, eq_of_beq reads, items, after, root, attached, isRead, shaped, whole⟩

end ScriptMigration
