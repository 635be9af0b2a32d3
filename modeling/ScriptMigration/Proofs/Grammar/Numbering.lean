import Mathlib.Data.List.Flatten
import Mathlib.Data.List.Perm.Subperm
import ScriptMigration.Grammar.Expression
import ScriptMigration.Proofs.Syntax.Regular

/-! How readers number the nodes that they make. A reader holds trees, reads others and puts them
together; what it returns is made of trees with distinct identities below the next one and without
comments, also where it went on after a fault. -/
namespace ScriptMigration

/-- The nodes of some trees are among those of others with all that they carry beside their shapes, and
as regular. -/
structure Covers (trees trees' : List Node) : Prop where
  infos : ((trees'.flatMap Node.descendants).map Node.info).Subperm
    ((trees.flatMap Node.descendants).map Node.info)
  regular : (∀ node ∈ trees.flatMap Node.descendants, node.Regular) →
    ∀ node ∈ trees'.flatMap Node.descendants, node.Regular

namespace Covers

variable {trees trees' first second : List Node}

theorem refl (trees : List Node) : Covers trees trees := ⟨.refl _, fun regular => regular⟩

theorem trans {third : List Node} (left : Covers first second) (right : Covers second third) :
    Covers first third :=
  ⟨right.infos.trans left.infos, fun regular => right.regular (left.regular regular)⟩

theorem ofSubperm (fewer : trees'.Subperm trees) : Covers trees trees' := by
  obtain ⟨same, perm, sublist⟩ := fewer
  have below := sublist.flatMap Node.descendants
  have again := perm.flatMap_right Node.descendants
  refine ⟨⟨_, again.map _, below.map _⟩, fun regular node inside => ?_⟩
  exact regular node (below.subset (again.symm.subset inside))

theorem append {first' second' : List Node} (left : Covers first first')
    (right : Covers second second') : Covers (first ++ second) (first' ++ second') := by
  constructor
  · simp only [List.flatMap_append, List.map_append]
    exact left.infos.append right.infos
  · intro regular node inside
    simp only [List.flatMap_append, List.mem_append] at regular inside
    rcases inside with inside | inside
    · exact left.regular (fun other among => regular other (.inl among)) node inside
    · exact right.regular (fun other among => regular other (.inr among)) node inside

theorem node {old new : Node} (info : new.info = old.info) (children : new.children = old.children)
    (regular : old.Regular → new.Regular) : Covers [old] [new] := by
  have whole (node : Node) : [node].flatMap Node.descendants =
      node :: node.children.flatMap Node.descendants := by
    rw [List.flatMap_singleton, Node.descendants_eq]
  constructor
  · rw [whole, whole, children, List.map_cons, List.map_cons, info]
  · intro areRegular node inside
    rw [whole] at areRegular
    rw [whole, children] at inside
    rcases List.mem_cons.1 inside with rfl | inside
    · exact regular (areRegular old List.mem_cons_self)
    · exact areRegular node (List.mem_cons_of_mem _ inside)

theorem map {f : Node → Node} (each : ∀ node, Covers [node] [f node]) (trees : List Node) :
    Covers trees (trees.map f) := by
  induction trees with
  | nil => exact refl []
  | cons node rest ih => exact (each node).append ih

theorem ids (covers : Covers trees trees') : ((trees'.flatMap Node.descendants).map Node.id).Subperm
    ((trees.flatMap Node.descendants).map Node.id) := by
  obtain ⟨same, perm, sublist⟩ := covers.infos
  have ids (trees : List Node) : (trees.flatMap Node.descendants).map Node.id =
      ((trees.flatMap Node.descendants).map Node.info).map NodeInfo.id := by
    rw [List.map_map]
    rfl
  rw [ids, ids]
  exact ⟨_, perm.map _, sublist.map _⟩

end Covers

structure Numbered (low high : Nat) (trees : List Node) : Prop where
  distinct : ((trees.flatMap Node.descendants).map Node.id).Nodup
  range : ∀ node ∈ trees.flatMap Node.descendants, low ≤ node.id.index ∧ node.id.index < high
  regular : ∀ node ∈ trees.flatMap Node.descendants, node.Regular

/-- The trees have distinct identities from `low` on and below `high`, and no comments yet. -/
structure Made (low high : Nat) (trees : List Node) : Prop extends Numbered low high trees where
  bare : ∀ node ∈ trees.flatMap Node.descendants, node.info.comments = []

namespace Made

variable {low middle high : Nat} {trees trees' : List Node}

theorem nil : Made low high [] := by
  refine ⟨⟨List.nodup_nil, fun _ absurd => ?_, fun _ absurd => ?_⟩, fun _ absurd => ?_⟩ <;>
    exact nomatch absurd

theorem covers (made : Made low high trees) (covers : Covers trees trees') : Made low high trees' := by
  have carried : ∀ node ∈ trees'.flatMap Node.descendants,
      ∃ other ∈ trees.flatMap Node.descendants, other.info = node.info := by
    intro node inside
    exact List.mem_map.1 (covers.infos.subset (List.mem_map.2 ⟨node, inside, rfl⟩))
  refine ⟨⟨?_, fun node inside => ?_, covers.regular made.regular⟩, fun node inside => ?_⟩
  · obtain ⟨same, perm, sublist⟩ := covers.ids
    exact perm.nodup_iff.1 (made.distinct.sublist sublist)
  · obtain ⟨other, among, same⟩ := carried node inside
    rw [Node.id, ← same]
    exact made.range other among
  · obtain ⟨other, among, same⟩ := carried node inside
    rw [← same]
    exact made.bare other among

theorem subperm (made : Made low high trees) (fewer : trees'.Subperm trees) : Made low high trees' :=
  made.covers (.ofSubperm fewer)

theorem append (left : Made low middle trees) (right : Made middle high trees')
    (first : low ≤ middle) (second : middle ≤ high) : Made low high (trees ++ trees') := by
  refine ⟨⟨?_, fun node inside => ?_, fun node inside => ?_⟩, fun node inside => ?_⟩
  · rw [List.flatMap_append, List.map_append]
    refine List.nodup_append'.2 ⟨left.distinct, right.distinct, ?_⟩
    intro id inLeft inRight
    obtain ⟨node, among, rfl⟩ := List.mem_map.1 inLeft
    obtain ⟨other, among', same⟩ := List.mem_map.1 inRight
    have small := (left.range node among).2
    have large := (right.range other among').1
    rw [same] at large
    exact absurd small (Nat.not_lt.2 large)
  all_goals
    rw [List.flatMap_append] at inside
    rcases List.mem_append.1 inside with among | among
  · exact (left.range node among).imp_right fun small => Nat.lt_of_lt_of_le small second
  · exact (right.range node among).imp_left fun large => Nat.le_trans first large
  · exact left.regular node among
  · exact right.regular node among
  · exact left.bare node among
  · exact right.bare node among

theorem node {kept : List Node} {info : NodeInfo} {shape : Shape Node}
    (parts : Made low high (kept ++ shape.children)) (next : info.id = ⟨high⟩)
    (start : low ≤ high) (regular : (Node.mk info shape).Regular) (bare : info.comments = []) :
    Made low (high + 1) (kept ++ [.mk info shape]) := by
  have whole : ((kept ++ [Node.mk info shape]).flatMap Node.descendants).Perm
      (.mk info shape :: (kept ++ shape.children).flatMap Node.descendants) := by
    rw [List.flatMap_append, List.flatMap_singleton, Node.descendants_eq, List.flatMap_append]
    exact List.perm_middle
  have index : (Node.mk info shape).id.index = high := congrArg NodeId.index next
  refine ⟨⟨?_, fun other inside => ?_, fun other inside => ?_⟩, fun other inside => ?_⟩
  · refine (whole.map Node.id).nodup_iff.2 (List.nodup_cons.2 ⟨fun again => ?_, parts.distinct⟩)
    obtain ⟨other, inside, same⟩ := List.mem_map.1 again
    have small := (parts.range other inside).2
    rw [same, index] at small
    exact Nat.lt_irrefl _ small
  all_goals rcases List.mem_cons.1 (whole.subset inside) with rfl | inside
  · rw [index]
    exact ⟨start, Nat.lt_succ_self _⟩
  · exact (parts.range other inside).imp_right Nat.lt_succ_of_lt
  · exact regular
  · exact parts.regular other inside
  · exact bare
  · exact parts.bare other inside

theorem parts {root : Node} (made : Made low high [root]) : Made low high root.children := by
  have whole : [root].flatMap Node.descendants =
      root :: root.children.flatMap Node.descendants := by
    rw [List.flatMap_singleton, Node.descendants_eq]
  have distinct := made.distinct
  rw [whole, List.map_cons] at distinct
  refine ⟨⟨(List.nodup_cons.1 distinct).2, fun node inside => made.range node ?_,
    fun node inside => made.regular node ?_⟩, fun node inside => made.bare node ?_⟩
  all_goals
    rw [whole]
    exact List.mem_cons_of_mem _ inside

end Made

namespace Reader

variable {α β : Type}

def Idle (reader : Reader α) : Prop :=
  ∀ state, match reader state with
    | .ok _ after | .error _ after => after.fresh = state.fresh

/-- A reader that holds some trees returns a value with numbered trees that is `fine`. -/
def Gives (held : List Node) (reader : Reader α) (trees : α → List Node) (fine : α → Prop) :
    Prop :=
  ∀ low state, low ≤ state.fresh → Made low state.fresh held → match reader state with
    | .ok value after =>
      state.fresh ≤ after.fresh ∧ Made low after.fresh (trees value) ∧ fine value
    | .error _ after => state.fresh ≤ after.fresh

namespace Idle

theorem pure (value : α) : Idle (pure value) := fun _ => rfl

theorem bind {reader : Reader α} {next : α → Reader β} (idle : Idle reader)
    (rest : ∀ value, Idle (next value)) : Idle (reader >>= next) := by
  intro state
  have first := idle state
  change match (EStateM.bind reader next) state with
    | .ok _ after | .error _ after => after.fresh = state.fresh
  unfold EStateM.bind
  cases found : reader state with
  | error fault after =>
    rw [found] at first
    exact first
  | ok value after =>
    rw [found] at first
    have second := rest value after
    dsimp only
    cases found' : next value after with
    | error fault last | ok result last =>
      rw [found'] at second
      exact second.trans first

theorem map {reader : Reader α} (idle : Idle reader) (f : α → β) : Idle (f <$> reader) :=
  idle.bind fun _ => .pure _

end Idle

theorem get_idle : Idle (get : Reader State) := fun _ => rfl

theorem peek_idle : Idle peek := get_idle.bind fun _ => .pure _

theorem peekKind_idle : Idle peekKind := peek_idle.bind fun _ => .pure _

theorem peekSecond_idle : Idle peekSecond := get_idle.bind fun _ => .pure _

theorem line_idle : Idle line := peek_idle.bind fun _ => .pure _

theorem lastLine_idle : Idle lastLine := get_idle.bind fun _ => .pure _

theorem advance_idle : Idle advance := by
  intro state
  rcases state with ⟨current, rest, lastLine, noted, fresh⟩
  cases rest <;> rfl

theorem throw_idle (fault : SyntaxFault) : Idle (throw fault : Reader α) := fun _ => rfl

theorem stop_idle (cause : SyntaxCause) : Idle (stop cause : Reader α) :=
  peek_idle.bind fun _ => throw_idle _

theorem at?_idle (kind : TokenKind) : Idle (at? kind) := peekKind_idle.bind fun _ => .pure _

theorem atWord_idle (word : String) : Idle (atWord word) := peek_idle.bind fun _ => .pure _

theorem eat_idle (kind : TokenKind) : Idle (eat kind) := by
  refine (at?_idle kind).bind fun found => ?_
  split
  · exact advance_idle.bind fun _ => .pure _
  · exact .pure _

theorem eatWord_idle (word : String) : Idle (eatWord word) := by
  refine (atWord_idle word).bind fun found => ?_
  split
  · exact advance_idle.bind fun _ => .pure _
  · exact .pure _

theorem expect_idle (kind : TokenKind) : Idle (expect kind) := by
  refine (at?_idle kind).bind fun found => ?_
  split
  · exact advance_idle
  · exact peekKind_idle.bind fun _ => stop_idle _

theorem expectWord_idle (word : String) : Idle (expectWord word) := by
  refine (eatWord_idle word).bind fun found => ?_
  split
  · exact peekKind_idle.bind fun _ => stop_idle _
  · exact .pure _

theorem expectName_idle : Idle expectName := by
  refine (at?_idle .identifier).bind fun found => ?_
  split
  · exact advance_idle.bind fun _ => .pure _
  · exact peekKind_idle.bind fun _ => stop_idle _

theorem expectAnyName_idle : Idle expectAnyName := by
  refine peekKind_idle.bind fun kind => ?_
  split
  · exact advance_idle
  · exact stop_idle _

theorem expectEnd_idle : Idle expectEnd := by
  refine peekKind_idle.bind fun kind => ?_
  split
  · exact advance_idle.bind fun _ => .pure _
  · exact stop_idle _

theorem fresh_skipWhile (test : TokenKind → Bool) (state : State) :
    (state.skipWhile test).fresh = state.fresh := by
  have later (rest : List Token) (current : Token) (lastLine : Nat) :
      (State.skipWhile.go test state current lastLine rest).fresh = state.fresh := by
    induction rest generalizing current lastLine with
    | nil => rfl
    | cons next rest ih =>
      unfold State.skipWhile.go
      split
      · exact ih next current.span.line
      · rfl
  exact later state.rest state.current state.lastLine

theorem skipSeparators_idle : Idle skipSeparators := fun state => fresh_skipWhile _ state

theorem skipLine_idle : Idle skipLine := by
  have passed : Idle (modify (·.skipWhile (· != .newline)) : Reader Unit) :=
    fun state => fresh_skipWhile _ state
  exact passed.bind fun _ => (eat_idle .newline).bind fun _ => .pure _

theorem note_idle (fault : SyntaxFault) : Idle (note fault) := fun _ => rfl

namespace Gives

variable {held : List Node} {reader : Reader α} {trees : α → List Node} {fine : α → Prop}

theorem idle (idle : Idle reader) : Gives held reader (fun _ => held) fun _ => True := by
  intro low state start made
  have same := idle state
  cases found : reader state with
  | error fault after =>
    rw [found] at same
    exact Nat.le_of_eq same.symm
  | ok value after =>
    rw [found] at same
    exact ⟨Nat.le_of_eq same.symm, same.symm ▸ made, trivial⟩

theorem pure {value : α} (fewer : (trees value).Subperm held) (isFine : fine value) :
    Gives held (pure value) trees fine :=
  fun _ _ _ made => ⟨Nat.le_refl _, made.subperm fewer, isFine⟩

theorem bind {next : α → Reader β} {trees' : β → List Node} {fine' : β → Prop}
    (first : Gives held reader trees fine)
    (rest : ∀ value, fine value → Gives (trees value) (next value) trees' fine') :
    Gives held (reader >>= next) trees' fine' := by
  intro low state start made
  have one := first low state start made
  change match (EStateM.bind reader next) state with
    | .ok value after =>
      state.fresh ≤ after.fresh ∧ Made low after.fresh (trees' value) ∧ fine' value
    | .error _ after => state.fresh ≤ after.fresh
  unfold EStateM.bind
  cases found : reader state with
  | error fault after =>
    rw [found] at one
    exact one
  | ok value after =>
    rw [found] at one
    obtain ⟨later, madeHere, isFine⟩ := one
    have two := rest value isFine low after (Nat.le_trans start later) madeHere
    dsimp only
    cases found' : next value after with
    | error fault last =>
      rw [found'] at two
      exact Nat.le_trans later two
    | ok result last =>
      rw [found'] at two
      exact ⟨Nat.le_trans later two.1, two.2⟩

theorem mono {trees' : α → List Node} {fine' : α → Prop} (gives : Gives held reader trees fine)
    (fewer : ∀ value, fine value → (trees' value).Subperm (trees value))
    (weaker : ∀ value, fine value → fine' value) : Gives held reader trees' fine' := by
  intro low state start made
  have given := gives low state start made
  cases found : reader state with
  | error fault after =>
    rw [found] at given
    exact given
  | ok value after =>
    rw [found] at given
    obtain ⟨later, madeHere, isFine⟩ := given
    exact ⟨later, madeHere.subperm (fewer value isFine), weaker value isFine⟩

theorem frame (gives : Gives [] reader trees fine) :
    Gives held reader (fun value => held ++ trees value) fine := by
  intro low state start made
  have given := gives state.fresh state (Nat.le_refl _) .nil
  cases found : reader state with
  | error fault after =>
    rw [found] at given
    exact given
  | ok value after =>
    rw [found] at given
    obtain ⟨later, madeHere, isFine⟩ := given
    exact ⟨later, made.append madeHere start later, isFine⟩

theorem step {next : α → Reader β} {trees' : β → List Node} {fine' : β → Prop}
    (first : Idle reader) (rest : ∀ value, Gives held (next value) trees' fine') :
    Gives held (reader >>= next) trees' fine' := bind (idle first) fun value _ => rest value

theorem take {next : α → Reader β} {trees' : β → List Node} {fine' : β → Prop}
    (first : Gives [] reader trees fine)
    (rest : ∀ value, fine value → Gives (held ++ trees value) (next value) trees' fine') :
    Gives held (reader >>= next) trees' fine' := bind first.frame rest

theorem map {f : α → β} {trees' : β → List Node} {fine' : β → Prop}
    (first : Gives held reader trees fine)
    (fewer : ∀ value, fine value → (trees' (f value)).Subperm (trees value))
    (weaker : ∀ value, fine value → fine' (f value)) :
    Gives held (f <$> reader) trees' fine' :=
  bind first fun value isFine => .pure (fewer value isFine) (weaker value isFine)

theorem fail {reader : Reader α} (fails : ∀ state, ∃ fault after, reader state =
    .error fault after ∧ after.fresh = state.fresh) : Gives held reader trees fine := by
  intro low state start made
  obtain ⟨fault, after, found, same⟩ := fails state
  rw [found]
  exact Nat.le_of_eq same.symm

theorem throw (fault : SyntaxFault) : Gives held (throw fault) trees fine :=
  fail fun state => ⟨fault, state, rfl, rfl⟩

theorem stop (cause : SyntaxCause) : Gives held (stop cause) trees fine :=
  fail fun state => ⟨_, state, rfl, rfl⟩

theorem exhausted : Gives held exhausted trees fine := stop _

theorem branch {condition : Prop} [Decidable condition] {left right : Reader α}
    {next : α → Reader β} {trees' : β → List Node} {fine' : β → Prop} (trees : α → List Node)
    (fine : α → Prop) (first : Gives held left trees fine) (second : Gives held right trees fine)
    (rest : ∀ value, fine value → Gives (trees value) (next value) trees' fine') :
    Gives held (if condition then left >>= next else right >>= next) trees' fine' := by
  split
  · exact bind first rest
  · exact bind second rest

theorem hold {held' : List Node} (gives : Gives held reader trees fine)
    (fewer : held.Subperm held') : Gives held' reader trees fine :=
  fun low state start made => gives low state start (made.subperm fewer)

theorem covered {held' : List Node} (gives : Gives held reader trees fine)
    (covers : Covers held' held) : Gives held' reader trees fine :=
  fun low state start made => gives low state start (made.covers covers)

theorem throw_bind {next : α → Reader β} {trees : β → List Node} {fine : β → Prop}
    (fault : SyntaxFault) : Gives held (MonadExcept.throw fault >>= next) trees fine :=
  fail fun state => ⟨fault, state, rfl, rfl⟩

theorem stop_bind {next : α → Reader β} {trees : β → List Node} {fine : β → Prop}
    (cause : SyntaxCause) : Gives held (Reader.stop cause >>= next) trees fine :=
  fail fun state => ⟨_, state, rfl, rfl⟩

theorem make_keeping (kept : List Node) {shape : Shape Node} {line lastLine : Nat}
    (parts : (kept ++ shape.children).Subperm held)
    (regular : ∀ info, (Node.mk info shape).Regular) :
    Gives held (Reader.make shape line lastLine) (fun node => kept ++ [node]) fun node =>
      node.shape = shape := by
  intro low state start made
  exact ⟨Nat.le_succ _, (made.subperm parts).node rfl start (regular _) rfl, rfl⟩

theorem make {shape : Shape Node} {line lastLine : Nat}
    (parts : shape.children.Subperm held) (regular : ∀ info, (Node.mk info shape).Regular) :
    Gives held (Reader.make shape line lastLine) (fun node => [node]) fun node =>
      node.shape = shape := make_keeping [] parts regular

theorem parts {root : Node} (gives : Gives root.children reader trees fine) :
    Gives [root] reader trees fine :=
  fun low state start made => gives low state start made.parts

/-- After a fault the reader goes on without what it has read. -/
theorem recovering {fallback : α} (gives : Gives [] reader trees fine)
    (none : trees fallback = []) (isFine : fine fallback) :
    Gives [] (recovering reader fallback) trees fine := by
  intro low state start made
  have given := gives low state start made
  unfold Reader.recovering
  cases found : reader state with
  | ok value after =>
    rw [found] at given
    exact given
  | error fault after =>
    rw [found] at given
    have skips : Gives [] (do note fault; Reader.skipLine; return fallback : Reader α) trees fine :=
      step (note_idle fault) fun _ => step skipLine_idle fun _ =>
        pure (none ▸ List.Subperm.refl _) isFine
    have skipped := skips low after (Nat.le_trans start given) .nil
    dsimp only
    cases found' : (do note fault; Reader.skipLine; return fallback : Reader α) after with
    | ok value last =>
      rw [found'] at skipped
      exact ⟨Nat.le_trans given skipped.1, skipped.2⟩
    | error fault' last =>
      rw [found'] at skipped
      exact Nat.le_trans given skipped

theorem commaList {item : Reader α} (each : Gives [] item trees fine) (bound : Nat) :
    Gives [] (commaList item bound) (List.flatMap trees) fun values => ∀ value ∈ values, fine value := by
  induction bound with
  | zero => exact exhausted
  | succ bound ih =>
    refine bind each fun first isFirst => step (eat_idle _) fun more => ?_
    split
    · refine take ih fun rest areFine => pure (List.Subperm.refl _) ?_
      exact List.forall_mem_cons.2 ⟨isFirst, areFine⟩
    · refine pure ?_ (by simpa using isFirst)
      rw [List.flatMap_singleton]

theorem nodeList {item : Reader Node} {fine : Node → Prop}
    (each : Gives [] item (fun node => [node]) fine) (bound : Nat) :
    Gives [] (Reader.commaList item bound) (fun nodes => nodes) fun nodes =>
      ∀ node ∈ nodes, fine node :=
  (commaList each bound).mono (fun nodes _ => by rw [List.flatMap_singleton']) fun _ isFine => isFine

end Gives

end Reader

end ScriptMigration
