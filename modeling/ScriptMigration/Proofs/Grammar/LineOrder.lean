import ScriptMigration.Proofs.Grammar.FaultOrder
import ScriptMigration.Proofs.Grammar.Shaping
import ScriptMigration.Proofs.Syntax.TypePasses

/-! The lines of declarations. The members of a type are read one after the other between the line that
opens it and the line that closes it, so two classes are one within the other, or one after the other.
Only the constructor that a text does not write itself can reach over its neighbours. -/
namespace ScriptMigration

open Reader

/-- One node begins on the last line of another one or later. -/
def Node.Precedes (first second : Node) : Prop := Attachment.lastLine first ≤ second.line

/-- Nodes one after the other, from the line `first` to the line `last`. -/
structure InLines (first last : Nat) (nodes : List Node) : Prop where
  le : first ≤ last
  ordered : nodes.Pairwise Node.Precedes
  within : ∀ node ∈ nodes, first ≤ node.line ∧ Attachment.lastLine node ≤ last

inductive Node.Neat : Node → Prop where
  | bare {node : Node} (none : node.typesBelow = []) : Neat node
  | type {node : Node} {decl : TypeDecl Node} (shape : node.shape = .type decl)
      (lines : InLines node.line (Attachment.lastLine node) decl.members)
      (members : ∀ member ∈ decl.members, member.Neat) : Neat node

namespace InLines

variable {first middle last : Nat} {nodes others : List Node} {node : Node}

theorem nil (le : first ≤ last) : InLines first last [] :=
  ⟨le, .nil, List.forall_mem_nil _⟩

theorem single (begins : first ≤ node.line) (ends : Attachment.lastLine node ≤ last) :
    InLines first last [node] := by
  refine ⟨?_, List.pairwise_singleton _ _, List.forall_mem_singleton.2 ⟨begins, ends⟩⟩
  have here : node.line ≤ Attachment.lastLine node := Nat.le_max_right _ _
  omega

theorem append (lines : InLines first middle nodes) (more : InLines middle last others) :
    InLines first last (nodes ++ others) := by
  refine ⟨lines.le.trans more.le, ?_, fun node listed => ?_⟩
  · refine List.pairwise_append.2 ⟨lines.ordered, more.ordered, fun left before right after => ?_⟩
    exact (lines.within left before).2.trans (more.within right after).1
  · rcases List.mem_append.1 listed with before | after
    · exact ⟨(lines.within node before).1, (lines.within node before).2.trans more.le⟩
    · exact ⟨lines.le.trans (more.within node after).1, (more.within node after).2⟩

theorem mono {first' last' : Nat} (lines : InLines first last nodes) (begins : first' ≤ first)
    (ends : last ≤ last') : InLines first' last' nodes :=
  ⟨begins.trans (lines.le.trans ends), lines.ordered, fun node listed =>
    ⟨begins.trans (lines.within node listed).1, (lines.within node listed).2.trans ends⟩⟩

theorem sublist (lines : InLines first last nodes) (part : others.Sublist nodes) :
    InLines first last others :=
  ⟨lines.le, lines.ordered.sublist part, fun node listed => lines.within node (part.subset listed)⟩

theorem map {f : Node → Node} (lines : InLines first last nodes)
    (stays : ∀ node, (f node).info = node.info) : InLines first last (nodes.map f) := by
  have line (node : Node) : (f node).line = node.line := congrArg NodeInfo.line (stays node)
  have end' (node : Node) : Attachment.lastLine (f node) = Attachment.lastLine node := by
    unfold Attachment.lastLine Node.lastLine Node.line
    rw [stays]
  refine ⟨lines.le, List.pairwise_map.2 (lines.ordered.imp fun ordered => ?_), ?_⟩
  · rw [Node.Precedes, line, end']
    exact ordered
  · refine List.forall_mem_map.2 fun node listed => ?_
    rw [line, end']
    exact lines.within node listed

theorem trichotomy (lines : InLines first last nodes) {left right : Node} (one : left ∈ nodes)
    (other : right ∈ nodes) : left = right ∨ left.Precedes right ∨ right.Precedes left := by
  let apart (left right : Node) : Prop := left = right ∨ left.Precedes right ∨ right.Precedes left
  have symm : Std.Symm apart := ⟨fun _ _ cases => cases.imp Eq.symm Or.symm⟩
  have both : nodes.Pairwise apart := lines.ordered.imp fun before => .inr (.inl before)
  exact both.forall_of_forall (fun _ _ => .inl rfl) one other

end InLines

namespace Reader

variable {α β : Type} {low first : Span}

def Laid (stands : Span → State → Prop) (low : Span) (nodes : List Node) (state : State) : Prop :=
  ∃ high : Span, InLines low.line high.line nodes ∧ stands high state

def Arranged (stands : Span → State → Prop) (low : Span) (nodes : List Node) (state : State) : Prop :=
  Laid stands low nodes state ∧ ∀ node ∈ nodes, node.Neat

namespace Arranged

variable {stands stands' : Span → State → Prop} {nodes : List Node} {state : State}

theorem nil (fits : stands low state) : Arranged stands low [] state :=
  ⟨⟨low, .nil le_rfl, fits⟩, List.forall_mem_nil _⟩

theorem mono (arranged : Arranged stands low nodes state)
    (weaker : ∀ high, stands high state → stands' high state) :
    Arranged stands' low nodes state := by
  obtain ⟨⟨high, lines, fits⟩, neat⟩ := arranged
  exact ⟨⟨high, lines, weaker high fits⟩, neat⟩

end Arranged

theorem Leads.and {before before' : State → Prop} {reader : Reader α} {after after' : α → State → Prop}
    (first : Leads before reader after) (second : Leads before' reader after') :
    Leads (fun state => before state ∧ before' state) reader fun value state =>
      after value state ∧ after' value state :=
  fun state value later starts returns =>
    ⟨first state value later starts.1 returns, second state value later starts.2 returns⟩

theorem Leads.assuming {fact : Prop} {before : State → Prop} {reader : Reader α}
    {after : α → State → Prop} (leads : fact → Leads before reader after) :
    Leads (fun state => fact ∧ before state) reader after :=
  fun state value later starts returns => leads starts.1 state value later starts.2 returns

theorem Leads.either {condition : Prop} [Decidable condition] {before middle : State → Prop}
    {left right : Reader α} {next : α → Reader β} {last : β → State → Prop}
    (first : Leads before left fun _ => middle) (second : Leads before right fun _ => middle)
    (rest : ∀ value, Leads middle (next value) last) :
    Leads before (if condition then left >>= next else right >>= next) last := by
  split
  · exact first.bind rest
  · exact second.bind rest

theorem Leads.line {line : Nat} :
    Leads (fun state => state.current.span.line = line) Reader.line fun found _ => found = line := by
  intro state found later starts returns
  obtain ⟨rfl, -⟩ := EStateM.Result.ok.inj returns
  exact starts

theorem Leads.at? {before : State → Prop} (kind : TokenKind) :
    Leads before (Reader.at? kind) fun found state =>
      found = (state.current.kind == kind) ∧ before state := by
  intro state found later starts returns
  obtain ⟨rfl, rfl⟩ := EStateM.Result.ok.inj returns
  exact ⟨rfl, starts⟩

theorem Leads.skipSeparators (low : Span) :
    Leads (State.Ending low) Reader.skipSeparators fun _ => State.Ending low := by
  intro state value later ending returns
  obtain ⟨-, rfl⟩ := EStateM.Result.ok.inj returns
  exact ending.skipWhile _

theorem Leads.makeAt (shape : Shape Node) (line lastLine : Nat) :
    Yields (Reader.make shape line lastLine) fun node =>
      node.line = line ∧ node.lastLine = lastLine ∧ node.shape = shape := by
  intro state node later _ returns
  obtain ⟨rfl, -⟩ := EStateM.Result.ok.inj returns
  exact ⟨rfl, rfl, rfl⟩

theorem Steady.leads {reader : Reader α} (steady : Steady reader) (low : Span) :
    Leads (State.InOrder low) reader fun _ => State.InOrder low := by
  intro state value later inOrder returns
  have settles := steady.orderly low state inOrder
  rw [OrderlyAt, returns] at settles
  exact settles

theorem Steady.ahead {reader : Reader α} (steady : Steady reader) (forward : Forward 1 reader)
    (low : Span) : Leads (fun state => state.InOrder low ∧ state.current.span = first) reader
      fun _ after => low < first ∧ after.InOrder first := by
  rintro state value later ⟨inOrder, rfl⟩ returns
  have after := steady.leads low state value later inOrder returns
  have sound : state.Sound True := ⟨inOrder.ends, fun _ _ _ => trivial⟩
  have moves := (forward (state.left + 1) state sound (Nat.lt_succ_self _)).moves
  rw [returns] at moves
  have passes : Passes True 1 state later := moves
  have fewer := passes.passed
  -- the tokens that are left are among those behind the first one
  have behind : later.tokens <:+ state.rest := by
    rcases List.suffix_cons_iff.1 passes.suffix with same | suffix
    · have length := congrArg List.length same
      rw [← State.tokens, State.length_tokens, State.length_tokens] at length
      omega
    · exact suffix
  have firsts := (List.pairwise_cons.1 inOrder.tokens).1
  exact ⟨inOrder.behind _ List.mem_cons_self,
    { after with behind := fun token listed => (firsts token (behind.subset listed)).2 }⟩

theorem Steady.lays {reader : Reader Node} (steady : Steady reader) (forward : Forward 1 reader)
    (placed : ∀ line, Leads (fun state => state.current.span.line = line) reader fun node _ =>
      node.line = line ∧ node.lastLine = line) (low : Span) :
    Leads (State.InOrder low) reader fun node => Laid State.InOrder low [node] := by
  intro state node later inOrder returns
  obtain ⟨lower, fits⟩ := steady.ahead forward low state node later ⟨inOrder, rfl⟩ returns
  obtain ⟨isLine, isLast⟩ := placed _ state node later rfl returns
  have lines : low.line ≤ state.current.span.line := by
    have := Span.lt_iff.1 lower
    omega
  refine ⟨state.current.span, .single ?_ ?_, fits⟩
  · rwa [isLine]
  · rw [Attachment.lastLine, isLine, isLast, Nat.max_self]

theorem Leads.commaList_laid {item : Reader Node}
    (lays : ∀ low, Leads (State.InOrder low) item fun node => Laid State.InOrder low [node])
    (bound : Nat) (low : Span) :
    Leads (State.InOrder low) (Reader.commaList item bound) (Laid State.InOrder low) := by
  induction bound generalizing low with
  | zero => exact .stop
  | succ bound ih =>
    refine (lays low).bind fun node => ?_
    rintro state nodes later ⟨high, lines, inOrder⟩
    refine Leads.bind ((eat_steady _).leads high) (fun more => ?_) state nodes later inOrder
    split
    · refine (ih high).bind fun rest => .pure ?_
      rintro after ⟨last, more, fits⟩
      exact ⟨last, lines.append more, fits⟩
    · exact .pure fun after fits => ⟨high, lines, fits⟩

/-- Before the end of the text the next token is passed. -/
theorem Leads.advance (low : Span) :
    Leads (fun state => state.InOrder low ∧ state.current.kind ≠ .endOfText) Reader.advance
      fun token after => low < token.span ∧ after.InOrder token.span ∧
        after.lastLine = token.span.line := by
  rintro state token later ⟨inOrder, goesOn⟩ returns
  obtain ⟨after, found, fits, -, behind⟩ := advance_spec inOrder
  obtain ⟨current, rest, lastLine, noted, fresh⟩ := state
  cases rest with
  | nil => exact absurd (inOrder.ends current rfl) goesOn
  | cons next rest =>
    obtain ⟨rfl, rfl⟩ := EStateM.Result.ok.inj (found.symm.trans returns)
    obtain ⟨-, rfl⟩ := EStateM.Result.ok.inj returns
    exact ⟨inOrder.behind _ List.mem_cons_self, { fits with behind := behind goesOn }, rfl⟩

theorem Leads.expect {kind : TokenKind} (goesOn : kind ≠ .endOfText) (low : Span) :
    Leads (State.InOrder low) (Reader.expect kind) fun token after =>
      low < token.span ∧ after.InOrder token.span ∧ after.lastLine = token.span.line := by
  intro state token later inOrder returns
  have isAt : Reader.at? kind state = .ok (state.current.kind == kind) state := rfl
  rw [Reader.expect, AgreesAt.bind_eq, isAt] at returns
  dsimp only at returns
  split at returns
  · rename_i isKind
    exact Leads.advance low state token later ⟨inOrder, by rwa [eq_of_beq isKind]⟩ returns
  · cases returns

theorem Leads.moreMembers {stands stands' : Span → State → Prop} {reader : Reader α}
    {next : α → Reader β} {some : α → List Node} {all : β → List Node}
    (first : Leads (State.InOrder low) reader fun value => Arranged stands low (some value))
    (rest : ∀ value high, Leads (stands high) (next value) fun found after =>
      ∃ others, all found = some value ++ others ∧ Arranged stands' high others after) :
    Leads (State.InOrder low) (reader >>= next) fun found => Arranged stands' low (all found) := by
  refine first.bind fun value => ?_
  rintro state found later ⟨⟨high, lines, fits⟩, neat⟩ returns
  obtain ⟨others, whole, ⟨last, more, standsLast⟩, areNeat⟩ :=
    rest value high state found later fits returns
  rw [whole]
  exact ⟨⟨last, lines.append more, standsLast⟩, List.forall_mem_append.2 ⟨neat, areNeat⟩⟩

theorem Leads.recovering_arranged {reader : Reader α} {fallback : α} (members : α → List Node)
    (closes : Closes reader) (none : members fallback = [])
    (lays : Leads (State.InOrder low) reader fun value => Arranged State.InOrder low (members value)) :
    Leads (State.InOrder low) (Reader.recovering reader fallback) fun value =>
      Arranged State.Ending low (members value) := by
  intro state value later inOrder returns
  have settles := closes.recovering fallback inOrder
  rw [returns] at settles
  unfold Reader.recovering at returns
  cases found : reader state with
  | ok result after =>
    rw [found] at returns
    obtain ⟨rfl, rfl⟩ := EStateM.Result.ok.inj returns
    exact (lays state _ _ inOrder found).mono fun _ => State.InOrder.ending
  | error fault after =>
    rw [found] at returns
    have falls : Yields (do note fault; skipLine; return fallback : Reader α) (· = fallback) :=
      .anyThen fun _ => .anyThen fun _ => .pure fun _ _ => rfl
    have same : value = fallback := falls after value later trivial returns
    rw [same, none]
    exact .nil settles

/-- A node from the line of its first token to that of its last one. -/
theorem Leads.closed {closer : Span} (shape : Shape Node) (lower : low < first)
    (later : first.line ≤ closer.line) :
    Leads (fun state => state.InOrder closer ∧ state.lastLine = closer.line) (do
      let node ← Reader.make shape first.line (← Reader.lastLine)
      expectEnd
      return node) fun node after => after.InOrder closer ∧ InLines low.line closer.line [node] ∧
        node.shape = shape ∧ node.line = first.line ∧ Attachment.lastLine node = closer.line := by
  have standing : Leads (fun state => state.InOrder closer ∧ state.lastLine = closer.line)
      Reader.lastLine fun last state => last = closer.line ∧ state.InOrder closer := by
    rintro state last after ⟨inOrder, isLast⟩ returns
    obtain ⟨rfl, rfl⟩ := EStateM.Result.ok.inj returns
    exact ⟨isLast, inOrder⟩
  refine standing.bind fun last => .assuming fun isLast => ?_
  subst isLast
  have made := ((make_steady shape first.line closer.line).leads closer).and
    (Leads.makeAt shape first.line closer.line)
  refine (made.weaken (fun _ inOrder => ⟨inOrder, trivial⟩) fun _ _ fits => fits.symm).bind
    fun node => .assuming fun ⟨isLine, isLast, isShape⟩ => ?_
  refine ((expectEnd_steady).leads closer).bind fun _ => .pure fun after fits => ?_
  have low := Span.lt_iff.1 lower
  have ends : Attachment.lastLine node = closer.line := by
    rw [Attachment.lastLine, isLine, isLast]
    omega
  refine ⟨fits, .single ?_ ends.le, isShape, isLine, ends⟩
  omega

end Reader

namespace Declaration

open Statement

theorem variableDecl_lays (visibility : Visibility) (site : Site) (bound : Nat) (low : Span) :
    Leads (State.InOrder low) (variableDecl visibility site bound) fun node =>
      Laid State.InOrder low [node] := by
  refine (variableDecl_steady visibility site bound).lays
    (fun _ => variableDecl_agrees _ _ (.inr ⟨trivial, rfl⟩)) (fun line => ?_) low
  refine Leads.line.take fun found isLine => ?_
  subst isLine
  have made {shape : Shape Node} : Yields (make shape found) fun node =>
      node.line = found ∧ node.lastLine = found :=
    (Leads.makeAt shape found found).mono fun _ placed => ⟨placed.1, placed.2.1⟩
  refine .anyThen fun name => .anyThen fun hasBounds => ?_
  refine Leads.either (.any _ _) (.any _ _) fun array => .anyThen fun typed => ?_
  split
  · exact .anyThen fun asNew => .anyThen fun typeName => made
  · exact made

theorem constantDecl_lays (visibility : Visibility) (site : Site) (bound : Nat) (low : Span) :
    Leads (State.InOrder low) (constantDecl visibility site bound) fun node =>
      Laid State.InOrder low [node] := by
  refine (constantDecl_steady visibility site bound).lays
    (fun _ => constantDecl_agrees _ _ (.inr ⟨trivial, rfl⟩)) (fun line => ?_) low
  refine Leads.line.take fun found isLine => ?_
  subst isLine
  refine .anyThen fun name => .anyThen fun typed => ?_
  refine Leads.either (.any _ _) (.any _ _) fun typeName => .anyThen fun _ => .anyThen fun init => ?_
  exact (Leads.makeAt _ found found).mono fun _ placed => ⟨placed.1, placed.2.1⟩

theorem procedure_lays (visibility : Visibility) (marks : DeclMarks) (bound : Nat) (low : Span) :
    Leads (fun state => state.InOrder low ∧ state.current.kind ≠ .endOfText)
      (procedure visibility marks bound) fun node => Laid State.InOrder low [node] := by
  refine (Leads.advance low).bind fun first => .assuming fun lower => ?_
  have behind {α : Type} {reader : Reader α} (steady : Steady reader) :
      Leads (State.InOrder first.span) reader fun _ => State.InOrder first.span :=
    steady.leads first.span
  refine Leads.bind ((behind (procedureKind_steady _)).weaken (fun _ => And.left) fun _ _ fits => fits)
    fun kind => ?_
  refine (behind expectName_steady).bind fun name => (behind (at?_steady _)).bind fun _ => ?_
  refine .either (behind (parameters_steady bound)) (behind (.pure [])) fun params => ?_
  refine (behind (eat_steady _)).bind fun typed => ?_
  refine .either (behind ((Expression.typeName_steady bound).map some)) (behind (.pure none))
    fun returnType => (behind expectEnd_steady).bind fun _ => ?_
  refine (behind (block_steady (Statement.read_steady bound) bound _)).bind fun body => ?_
  refine (behind (expect_steady _)).bind fun _ => ?_
  have isWord : TokenKind.keyword kind.2 ≠ .endOfText := nofun
  refine (Leads.expect isWord first.span).bind fun closer => .assuming fun later => ?_
  refine (Leads.closed _ lower (Span.line_le later)).weaken (fun _ fits => fits) fun node after fits => ?_
  exact ⟨closer.span, fits.2.1, fits.1⟩

theorem members_lay (bound : Nat) (low : Span) :
    Leads (State.InOrder low) (members bound) (Laid State.InOrder low) := by
  have terminated {item : Reader Node} (low : Span) (lays : ∀ low,
      Leads (State.InOrder low) item fun node => Laid State.InOrder low [node]) :
      Leads (State.InOrder low) (do
        let nodes ← commaList item bound
        expectEnd
        return nodes) (Laid State.InOrder low) := by
    refine (Leads.commaList_laid lays bound low).bind fun nodes => ?_
    rintro state value later ⟨high, lines, fits⟩
    refine Leads.bind ((expectEnd_steady).leads high) (fun _ => .pure fun after fits => ?_)
      state value later fits
    exact ⟨high, lines, fits⟩
  have declared (visibility : Visibility) (default : Bool) : Leads (State.InOrder low)
      (declarations visibility default bound) (Laid State.InOrder low) := by
    have single (kind : TokenKind) (goesOn : kind ≠ .endOfText) :
        Leads (fun state => state.InOrder low ∧ state.current.kind = kind)
          (List.singleton <$> procedure visibility { default } bound) (Laid State.InOrder low) := by
      rw [map_eq_pure_bind]
      refine ((procedure_lays visibility { default } bound low).weaken
        (fun state (known : state.InOrder low ∧ state.current.kind = kind) =>
          ⟨known.1, known.2 ▸ goesOn⟩) fun _ _ laid => laid).bind fun node => ?_
      exact .pure fun _ laid => laid
    refine Leads.peekKind.bind fun kind => ?_
    split
    · exact single _ fun absurd => by cases absurd
    · exact single _ fun absurd => by cases absurd
    · exact single _ fun absurd => by cases absurd
    · exact ((advance_steady.leads low).weaken (fun _ => And.left) fun _ _ fits => fits).bind
        fun _ => terminated low (constantDecl_lays _ _ bound)
    · exact ((advance_steady.leads low).weaken (fun _ => And.left) fun _ _ fits => fits).bind
        fun _ => terminated low (variableDecl_lays _ _ bound)
    · split
      · exact (terminated low (variableDecl_lays _ _ bound)).weaken (fun _ => And.left)
          fun _ _ laid => laid
      · exact .stop
    · exact .stop
  refine ((eat_steady _).leads low).bind fun isPublic => ?_
  dsimp only
  split
  · exact ((eatWord_steady _).leads low).bind fun default => declared .everyone default
  · refine ((eat_steady _).leads low).bind fun isPrivate => ?_
    split
    · exact declared .owner false
    · exact declared .undecided false

theorem members_arranged (bound : Nat) (low : Span) :
    Leads (State.InOrder low) (members bound) (Arranged State.InOrder low) := by
  refine ((members_lay bound low).and (members_declared bound)).weaken
    (fun _ inOrder => ⟨inOrder, trivial⟩) fun nodes _ fits => ⟨fits.1, fun node listed => .bare ?_⟩
  rcases fits.2 node listed with is | ⟨is, -⟩
  · exact is.2.layers.typesBelow_eq_nil (by rw [Shape.isType_eq, is.1]; rfl)
  · exact is.2.layers.typesBelow_eq_nil (by rw [Shape.isType_eq, is.1]; rfl)

theorem classMembers_arranged {nested : Reader Node} (closes : Closes nested)
    (inner : ∀ low, Leads (State.InOrder low) nested fun node => Arranged State.InOrder low [node])
    (className : String) (first : Span) (bound : Nat) (low : Span) :
    Leads (State.Ending low) (classMembers nested className first bound)
      (Arranged State.InOrder low) := by
  induction bound generalizing low with
  | zero => exact .stop
  | succ bound ih =>
    refine (Leads.skipSeparators low).bind fun _ => Leads.peekKind.bind fun kind => ?_
    split
    · rename_i isEnd
      refine .pure fun state known => .nil (known.1.inOrder ?_)
      rw [known.2, eq_of_beq isEnd]
      exact nofun
    dsimp only
    split
    · exact .throw_bind
    · rename_i isEnd
      have member : Leads (State.InOrder low) (classMember nested className (bound + 1) kind)
          (Arranged State.InOrder low) := by
        unfold classMember
        split
        · rw [map_eq_pure_bind]
          exact (inner low).bind fun decl => .pure fun _ arranged => arranged
        · split
          · exact members_arranged _ low
          · exact .stop
      have recovers := Leads.recovering_arranged (fun nodes => nodes)
        (classMember_closes closes className (bound + 1) kind) rfl member
      refine (Leads.moreMembers recovers fun found high => ?_).weaken (fun state known => ?_)
        fun _ _ arranged => arranged
      · exact (ih high).bind fun others => .pure fun after arranged => ⟨others, rfl, arranged⟩
      · refine known.1.inOrder ?_
        rw [known.2]
        simpa using isEnd

theorem classDecl_arranged (bound : Nat) (low : Span) :
    Leads (State.InOrder low) (classDecl bound) fun node => Arranged State.InOrder low [node] := by
  induction bound generalizing low with
  | zero => exact .stop
  | succ bound ih =>
    have isClass : TokenKind.keyword .kwClass ≠ .endOfText := nofun
    refine (Leads.expect isClass low).bind fun first => .assuming fun lower => ?_
    refine Leads.bind ((expectName_steady.leads first.span).weaken (fun _ => And.left)
      fun _ _ fits => fits) fun name => ?_
    refine (expectEnd_steady.leads first.span).bind fun _ => ?_
    refine ((classMembers_arranged (classDecl_closes bound) ih name first.span (bound + 1)
      first.span).weaken (fun _ => State.InOrder.ending) fun _ _ arranged => arranged).bind
        fun members => ?_
    rintro state node later ⟨⟨high, lines, inOrder⟩, neat⟩ returns
    have closes : Leads (State.InOrder high) (do
        let _ ← expect (.keyword .kwEnd)
        let _ ← expect (.keyword .kwClass)
        let decl ← make (.type { name, members }) first.span.line (← lastLine)
        expectEnd
        return decl) fun node => Arranged State.InOrder low [node] := by
      refine ((expect_steady _).leads high).bind fun _ => ?_
      refine (Leads.expect isClass high).bind fun closer => .assuming fun beyond => ?_
      refine (Leads.closed _ lower (lines.le.trans (Span.line_le beyond))).weaken (fun _ fits => fits) ?_
      rintro node after ⟨fits, line, shape, isLine, isLast⟩
      refine ⟨⟨closer.span, line, fits⟩, List.forall_mem_singleton.2 (.type shape ?_ neat)⟩
      rw [isLine, isLast]
      exact lines.mono le_rfl (Span.line_le beyond)
    exact closes state node later inOrder returns

end Declaration

def Shape.isImplied {α : Type} : Shape α → Bool
  | .method decl => decl.kind == .constructor && decl.marks.synthesized
  | _ => false

theorem Shape.isImplied_mapParts {α β : Type} (shape : Shape α)
    (f : (part : α) → part ∈ shape.children → β) :
    (shape.mapParts f).isImplied = shape.isImplied := by
  cases shape with
  | loop test body => cases test <;> rfl
  | _ => rfl

theorem Shape.isType_of_isImplied {α : Type} {shape : Shape α} (implied : shape.isImplied) :
    shape.isType = false := by
  cases shape <;> first | rfl | exact nomatch implied

namespace ModuleText

theorem info_markModuleDim (node : Node) : (markModuleDim node).info = node.info := by
  unfold markModuleDim
  split <;> rfl

theorem neat_markModuleDim {node : Node} (neat : node.Neat) : (markModuleDim node).Neat := by
  cases neat with
  | type shape lines members =>
    have same : markModuleDim node = node := by
      rw [markModuleDim, shape]
    rw [same]
    exact .type shape lines members
  | bare none =>
    refine .bare ?_
    rw [← none, Node.typesBelow_eq, Node.typesBelow_eq node]
    unfold markModuleDim
    split
    · rename_i decl shape
      rw [Node.children, Node.children, shape]
      rfl
    · rfl

theorem item_arranged (bound : Nat) (low : Span) :
    Leads (State.InOrder low) (item bound) fun top => Arranged State.InOrder low top.members := by
  refine (peekKind_steady.leads low).bind fun kind => ?_
  dsimp only
  split
  · refine (advance_steady.leads low).bind fun _ => ?_
    refine ((expectWord_steady _).leads low).bind fun _ => ?_
    exact (expectEnd_steady.leads low).bind fun _ => .pure fun _ fits => .nil fits
  · split
    · exact (Declaration.classDecl_arranged bound low).bind fun decl => .pure fun _ arranged => arranged
    · split
      · refine (Declaration.members_arranged bound low).bind fun decls => ?_
        split
        · refine .pure ?_
          rintro state ⟨⟨high, lines, fits⟩, neat⟩
          refine ⟨⟨high, lines.map info_markModuleDim, fits⟩, List.forall_mem_map.2 ?_⟩
          exact fun node listed => neat_markModuleDim (neat node listed)
        · exact .pure fun _ arranged => arranged
      · refine ((Statement.read_steady bound).leads low).bind fun loose => ?_
        exact (expectEnd_steady.leads low).bind fun _ => .pure fun _ fits => .nil fits

theorem items_arranged (bound : Nat) (low : Span) :
    Leads (State.Ending low) (items bound) fun top => Arranged State.Ending low top.members := by
  induction bound generalizing low with
  | zero => exact .stop
  | succ bound ih =>
    refine (Leads.skipSeparators low).bind fun _ => (Leads.at? _).bind fun isEnd => ?_
    split
    · exact .pure fun _ known => .nil known.2
    · rename_i goesOn
      have none : TopLevel.members {} = [] := rfl
      have recovers := Leads.recovering_arranged TopLevel.members (item_closes (bound + 1)) none
        (item_arranged (bound + 1) low)
      refine (Leads.moreMembers recovers fun first high => ?_).weaken (fun state known => ?_)
        fun _ _ arranged => arranged
      · exact (ih high).bind fun rest => .pure fun _ arranged => ⟨rest.members, rfl, arranged⟩
      · refine known.2.inOrder fun same => goesOn ?_
        rw [known.1, same]
        rfl

/-- The members of a root, one after the other, and the constructor that no one wrote among them. -/
structure Composed (root : Node) (decl : TypeDecl Node) (fields rest : List Node)
    (constructor : Option Node) : Prop where
  shape : root.shape = .type decl
  members : decl.members = fields ++ constructor.toList ++ rest
  lines : ∃ first last, InLines first last (fields ++ rest)
  neat : ∀ member ∈ fields ++ rest, member.Neat
  implied : ∀ node ∈ constructor, node.shape.isImplied

theorem Composed.ofNeat {root : Node} (neat : root.Neat) (isType : root.shape.isType) :
    ∃ decl, Composed root decl decl.members [] none := by
  cases neat with
  | bare none => simp [Node.typesBelow_eq, isType] at none
  | @type _ decl shape lines members =>
    have same : decl.members ++ [] = decl.members := List.append_nil _
    exact ⟨decl, shape, by simp, ⟨_, _, same.symm ▸ lines⟩, same.symm ▸ members, nofun⟩

theorem shape_composed (name : String) {top : TopLevel} {first last : Nat}
    (lines : InLines first last top.members) (neat : ∀ member ∈ top.members, member.Neat) :
    Yields (shape name top) fun root => root.shape.isType →
      ∃ decl fields rest constructor, Composed root decl fields rest constructor := by
  unfold shape
  split
  · rename_i decl isOne isMember none
    refine .pure fun _ _ isType => ?_
    obtain ⟨found, composed⟩ := Composed.ofNeat (neat decl (by simp [isMember])) isType
    exact ⟨found, _, _, _, composed⟩
  · dsimp only
    have made (body : List Node) : Yields (constructor? name body) fun constructor =>
        ∀ node ∈ constructor, IsConstructor name body node := by
      intro state constructor later _ returns
      exact (constructor?_leads name body state.noted state constructor later rfl returns).2.2
    refine (made _).take fun constructor runs => .anyThen fun line => .make fun info state _ _ => ?_
    let members := top.members.filter (staysMember top)
    have whole : members.takeWhile (·.shape.isField) ++ members.dropWhile (·.shape.isField) = members :=
      List.takeWhile_append_dropWhile
    have kept : members.Sublist top.members := List.filter_sublist
    refine ⟨_, members.takeWhile (·.shape.isField), members.dropWhile (·.shape.isField), constructor,
      rfl, rfl, ⟨first, last, ?_⟩, ?_, ?_⟩
    · rw [whole]
      exact lines.sublist kept
    · rw [whole]
      exact fun member listed => neat member (kept.subset listed)
    · intro node listed
      obtain ⟨block, -, shape⟩ := runs node listed
      rw [shape]
      rfl

end ModuleText

end ScriptMigration
