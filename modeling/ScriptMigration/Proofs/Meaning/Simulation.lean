import Mathlib.Data.List.Forall2
import ScriptMigration.Proofs.Meaning.Procedure

/-! Procedures that do the same. The nodes of two procedures are related one by one: they mean the same
over related nodes, or they both do nothing but leave with the same value. Every run of the one is then
one of the other, for every interpretation of all that they have in common. -/
namespace ScriptMigration

/-- Two nodes mean the same over related nodes. If they stand for the cells, these hold the same. -/
inductive Sense.Alike {Value : Type} (cells : Value → Value → Prop) (related : Node → Node → Prop) :
    Sense → Sense → Prop where
  | own (equal : cells = Eq) : Alike cells related .own .own
  | literal (literal : Literal) : Alike cells related (.literal literal) (.literal literal)
  | giveNone : Alike cells related (.give none) (.give none)
  | give {value value' : Node} (values : related value value') :
      Alike cells related (.give (some value)) (.give (some value'))
  | block {stmts stmts' : List Node} (each : List.Forall₂ related stmts stmts') :
      Alike cells related (.block stmts) (.block stmts')
  | other (label : Label) {parts parts' : List Node} (each : List.Forall₂ related parts parts') :
      Alike cells related (.other label parts) (.other label parts')

theorem Sense.Alike.flip {Value : Type} {cells : Value → Value → Prop}
    {related : Node → Node → Prop} {sense sense' : Sense} (alike : Alike cells related sense sense') :
    Alike (flip cells) (flip related) sense' sense := by
  cases alike with
  | own equal =>
    refine .own ?_
    subst equal
    funext left right
    exact propext eq_comm
  | literal literal => exact .literal literal
  | giveNone => exact .giveNone
  | give values => exact .give values
  | block each => exact .block each.flip
  | other label each => exact .other label each.flip

namespace Interpretation

variable {I : Interpretation} {source target : I.Frame} {cells : I.Value → I.Value → Prop}
  {related : Node → Node → Prop}

def Leaving (source target : I.Frame) (cells : I.Value → I.Value → Prop) (node node' : Node) : Prop :=
  ∀ cell cell', cells cell cell' → ∃ value,
    source.LeavesWith node cell value ∧ target.LeavesWith node' cell' value

def Simulates (source target : I.Frame) (cells : I.Value → I.Value → Prop)
    (related : Node → Node → Prop) : Prop :=
  ∀ node node', related node node' → Leaving source target cells node node' ∨
    Sense.Alike cells related (source.sense node) (target.sense node')

theorem Simulates.flip (simulates : Simulates source target cells related) :
    Simulates target source (flip cells) (flip related) := by
  intro node node' same
  rcases simulates node' node same with leaving | alike
  · refine .inl fun cell cell' near => ?_
    obtain ⟨value, left, right⟩ := leaving cell' cell near
    exact ⟨value, right, left⟩
  · exact .inr alike.flip

inductive Phase.Related (related : Node → Node → Prop) : I.Phase → I.Phase → Prop where
  | node {node node' : Node} (task : Task I.Value) (world : I.World) (same : related node node') :
      Related related (.node node task world) (.node node' task world)
  | control {parts parts' : List Node} (control : I.Control)
      (each : List.Forall₂ related parts parts') :
      Related related (.control parts control) (.control parts' control)
  | stmts {stmts stmts' : List Node} (world : I.World) (each : List.Forall₂ related stmts stmts') :
      Related related (.stmts stmts world) (.stmts stmts' world)

def Matches (target : I.Frame) (cells : I.Value → I.Value → Prop) (phase : I.Phase) (cell : I.Value)
    (ending : I.Ending) (world : I.World) (last : I.Value) : Prop :=
  ∃ last', Runs target phase cell ending world last' ∧ cells last last'

theorem Leaving.run {node node' : Node} {task : Task I.Value} {world after : I.World}
    {cell cell' last : I.Value} {ending : I.Ending} (leaving : Leaving source target cells node node')
    (runs : Runs source (.node node task world) cell ending after last) (near : cells cell cell') :
    Matches target cells (.node node' task world) cell' ending after last := by
  obtain ⟨value, left, right⟩ := leaving cell cell' near
  obtain ⟨rfl, rfl, rfl, rfl⟩ := (left ..).1 runs
  exact ⟨cell', (right ..).2 ⟨rfl, rfl, rfl, rfl⟩, near⟩

theorem getElem?_of_forall₂ {parts parts' : List Node} (each : List.Forall₂ related parts parts')
    {number : Nat} {part : Node} (isPart : parts[number]? = some part) :
    ∃ part', parts'[number]? = some part' ∧ related part part' := by
  induction each generalizing number with
  | nil => exact nomatch isPart
  | cons same _ ih =>
    cases number with
    | zero =>
      obtain rfl := Option.some.inj isPart
      exact ⟨_, rfl, same⟩
    | succ number => exact ih isPart

theorem Simulates.runs (simulates : Simulates source target cells related) {phase : I.Phase}
    {cell last : I.Value} {ending : I.Ending} {world : I.World}
    (runs : Runs source phase cell ending world last) {phase' : I.Phase} {cell' : I.Value}
    (relates : Phase.Related related phase phase') (near : cells cell cell') :
    Matches target cells phase' cell' ending world last := by
  -- a node that leaves at once is matched whatever the rule; else its meaning tells the rule
  have node {node node' : Node} {task : Task I.Value} {world after : I.World}
      {cell cell' last : I.Value} {ending : I.Ending} {sense : Sense} (same : related node node')
      (isSense : source.sense node = sense)
      (runs : Runs source (.node node task world) cell ending after last) (near : cells cell cell')
      (alike : ∀ sense', target.sense node' = sense' → Sense.Alike cells related sense sense' →
        Matches target cells (.node node' task world) cell' ending after last) :
      Matches target cells (.node node' task world) cell' ending after last := by
    rcases simulates node node' same with leaving | also
    · exact leaving.run runs near
    · exact alike _ rfl (isSense ▸ also)
  induction runs generalizing phase' cell' with
  | read sense =>
    cases relates with | node _ _ same => ?_
    refine node same sense (.read sense) near fun sense' isSense alike => ?_
    cases alike with | own equal => ?_
    subst equal near
    exact ⟨_, .read isSense, rfl⟩
  | write sense =>
    cases relates with | node _ _ same => ?_
    refine node same sense (.write sense) near fun sense' isSense alike => ?_
    cases alike with | own equal => ?_
    subst equal
    exact ⟨_, .write isSense, rfl⟩
  | literal sense =>
    cases relates with | node _ _ same => ?_
    refine node same sense (.literal sense) near fun sense' isSense alike => ?_
    cases alike with | literal literal => ?_
    exact ⟨_, .literal isSense, near⟩
  | exit sense =>
    cases relates with | node _ _ same => ?_
    refine node same sense (.exit sense) near fun sense' isSense alike => ?_
    cases alike
  | giveNone sense =>
    cases relates with | node _ _ same => ?_
    refine node same sense (.giveNone sense) near fun sense' isSense alike => ?_
    cases alike with | giveNone => ?_
    exact ⟨_, .giveNone isSense, near⟩
  | give sense evaluated ih =>
    cases relates with | node _ _ same => ?_
    refine node same sense (.give sense evaluated) near fun sense' isSense alike => ?_
    cases alike with | give values => ?_
    obtain ⟨last', runs, near⟩ := ih (.node .give _ values) near
    exact ⟨last', .give isSense runs, near⟩
  | declareNone sense =>
    cases relates with | node _ _ same => ?_
    refine node same sense (.declareNone sense) near fun sense' isSense alike => ?_
    cases alike
  | declare sense evaluated =>
    cases relates with | node _ _ same => ?_
    refine node same sense (.declare sense evaluated) near fun sense' isSense alike => ?_
    cases alike
  | block sense body ih =>
    cases relates with | node _ _ same => ?_
    refine node same sense (.block sense body) near fun sense' isSense alike => ?_
    cases alike with | block each => ?_
    obtain ⟨last', runs, near⟩ := ih (.stmts _ each) near
    exact ⟨last', .block isSense runs, near⟩
  | other sense work ih =>
    cases relates with | node _ _ same => ?_
    refine node same sense (.other sense work) near fun sense' isSense alike => ?_
    cases alike with | other label each => ?_
    obtain ⟨last', runs, near⟩ := ih (.control _ each) near
    exact ⟨last', .other isSense runs, near⟩
  | finish step =>
    cases relates with | control _ each => ?_
    exact ⟨_, .finish step, near⟩
  | visit step isPart first rest first_ih rest_ih =>
    cases relates with | control _ each => ?_
    obtain ⟨part', isPart', same⟩ := getElem?_of_forall₂ each isPart
    obtain ⟨between, early, near⟩ := first_ih (.node _ _ same) near
    obtain ⟨last', late, near⟩ := rest_ih (.control _ each) near
    exact ⟨last', .visit step isPart' early late, near⟩
  | visitLeft step isPart first ih =>
    cases relates with | control _ each => ?_
    obtain ⟨part', isPart', same⟩ := getElem?_of_forall₂ each isPart
    obtain ⟨last', runs, near⟩ := ih (.node _ _ same) near
    exact ⟨last', .visitLeft step isPart' runs, near⟩
  | through =>
    cases relates with | stmts _ each => ?_
    cases each
    exact ⟨_, .through, near⟩
  | next first goesOn later first_ih later_ih =>
    cases relates with | stmts _ each => ?_
    cases each with | cons same each => ?_
    obtain ⟨between, early, near⟩ := first_ih (.node _ _ same) near
    obtain ⟨last', late, near⟩ := later_ih (.stmts _ each) near
    exact ⟨last', .next early goesOn late, near⟩
  | stop first stops ih =>
    cases relates with | stmts _ each => ?_
    cases each with | cons same each => ?_
    obtain ⟨last', runs, near⟩ := ih (.node _ _ same) near
    exact ⟨last', .stop runs stops, near⟩
  | left first ih =>
    cases relates with | stmts _ each => ?_
    cases each with | cons same each => ?_
    obtain ⟨last', runs, near⟩ := ih (.node _ _ same) near
    exact ⟨last', .left runs, near⟩

variable {stmts stmts' : List Node} {cell cell' : I.Value} {world after : I.World}
  {outcome : I.Outcome}

section Finishes

variable (simulates : Simulates source target cells related)
  (each : List.Forall₂ related stmts stmts') (near : cells cell cell')

include simulates each near

/-- Statements that end in the same way, where those of the second procedure are followed by one that
gives back what the first procedure gives back at its end. -/
theorem Simulates.finishes_iff_return {final : Node} (returns : ∀ cell cell', cells cell cell' →
      target.LeavesWith final cell' (source.atExit cell)) :
    source.Finishes stmts cell world outcome after ↔
      target.Finishes (stmts' ++ [final]) cell' world outcome after := by
  constructor
  · rintro ⟨ending, last, runs, rfl⟩
    obtain ⟨last', runs', near'⟩ := simulates.runs runs (.stmts world each) near
    cases ending with
    | through =>
      refine ⟨.leaves (source.atExit last), last', runs_append.2 (.inl ⟨_, _, runs', ?_⟩), rfl⟩
      exact (runs_of_leavesWith (returns last last' near')).2 ⟨rfl, rfl, rfl⟩
    | answers answer => exact ⟨.answers answer, last', runs_append.2 (.inr ⟨nofun, runs'⟩), rfl⟩
    | leaves value => exact ⟨.leaves value, last', runs_append.2 (.inr ⟨nofun, runs'⟩), rfl⟩
  · rintro ⟨ending, last', runs', rfl⟩
    rcases runs_append.1 runs' with ⟨middle, between, early, late⟩ | ⟨differs, early⟩
    · obtain ⟨last, runs, near'⟩ := simulates.flip.runs early (.stmts world each.flip) near
      obtain ⟨rfl, rfl, rfl⟩ := (runs_of_leavesWith (returns last between near')).1 late
      exact ⟨.through, last, runs, rfl⟩
    · obtain ⟨last, runs, _⟩ := simulates.flip.runs early (.stmts world each.flip) near
      refine ⟨ending, last, runs, ?_⟩
      cases ending with
      | through => exact absurd rfl differs
      | answers answer => rfl
      | leaves value => rfl

theorem Simulates.finishes_iff (never : ∀ cell world after last,
      ¬ Runs source (.stmts stmts world) cell .through after last) :
    source.Finishes stmts cell world outcome after ↔
      target.Finishes stmts' cell' world outcome after := by
  constructor
  · rintro ⟨ending, last, runs, rfl⟩
    obtain ⟨last', runs', _⟩ := simulates.runs runs (.stmts world each) near
    refine ⟨ending, last', runs', ?_⟩
    cases ending with
    | through => exact absurd runs (never _ _ _ _)
    | answers answer => rfl
    | leaves value => rfl
  · rintro ⟨ending, last', runs', rfl⟩
    obtain ⟨last, runs, _⟩ := simulates.flip.runs runs' (.stmts world each.flip) near
    refine ⟨ending, last, runs, ?_⟩
    cases ending with
    | through => exact absurd runs (never _ _ _ _)
    | answers answer => rfl
    | leaves value => rfl

end Finishes

end Interpretation

end ScriptMigration
