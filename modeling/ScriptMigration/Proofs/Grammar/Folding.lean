import Mathlib
import ScriptMigration.Draft.Basic
import ScriptMigration.Grammar.Module
import ScriptMigration.Proofs.Grammar.Modules
import ScriptMigration.Proofs.Syntax.Places

/-! Initial values of the local variables of a constructor. Each of them comes from an assignment that
stood behind the declaration, and where that is a plain one whose value does not mention the variable,
it makes no difference which of the two runs. -/
namespace ScriptMigration

/-- Whether a name below a node is spelt like the given one, whatever case its letters have. -/
def Node.Mentions (node : Node) (name : String) : Prop :=
  ∃ part ∈ node.descendants, part.nameText?.any (sameName · name)

instance (node : Node) (name : String) : Decidable (node.Mentions name) :=
  inferInstanceAs (Decidable (∃ part ∈ node.descendants, _))

namespace ModuleText

/-- The statements on the right are those on the left with every initial value that was given to a
declaration taken back into an assignment behind it. -/
inductive Expands : List Node → List Node → Prop where
  | nil : Expands [] []
  | keep {stmt : Node} {rest rest' : List Node} (further : Expands rest rest') :
      Expands (stmt :: rest) (stmt :: rest')
  | initial {declaration assignment target value : Node} {decl : VarDecl Node} {isSet : Bool}
      {name : String} {rest rest' : List Node} (declares : declaration.shape = .localVar decl)
      (empty : decl.init = none) (assigns : assignment.shape = .assign isSet target value)
      (isName : target.nameText? = some name) (same : sameName name decl.name)
      (further : Expands rest rest') :
      Expands (declaration.withShape (.localVar { decl with init := some value }) :: rest)
        (declaration :: assignment :: rest')

theorem joinInitializers_expands (stmts : List Node) : Expands (joinInitializers stmts) stmts := by
  induction stmts using joinInitializers.induct with
  | case1 declaration next rest joined found ih =>
    obtain ⟨decl, isSet, target, value, name, declares, empty, -, assigns, isName, same, rfl⟩ :=
      folded?_eq_some found
    rw [joinInitializers, found]
    exact .initial declares empty assigns isName same ih
  | case2 declaration next rest apart ih =>
    rw [joinInitializers, apart]
    exact .keep ih
  | case3 stmts short =>
    rcases stmts with _ | ⟨first, _ | ⟨second, rest⟩⟩
    · exact .nil
    · exact .keep .nil
    · exact absurd rfl (short first second rest)

def AssignsApart (stmt : Node) : Prop :=
  ∃ target value name, stmt.shape = .assign false target value ∧ target.nameText? = some name ∧
    ¬ value.Mentions name

def JoinsApart (stmts : List Node) : Prop :=
  ∀ declaration assignment, [declaration, assignment] <:+: stmts →
    (folded? declaration assignment).isSome → AssignsApart assignment

end ModuleText

/-- What it takes to run the statements of a constructor: variables come into being and are assigned
to, and expressions are evaluated. Where an expression does not mention a variable, it makes no
difference to its evaluation whether the variable is there yet. -/
structure BodyMachine (M : Type → Type) [Monad M] where
  Value : Type
  declare : VarDecl Node → M Unit
  evaluate : Node → M Value
  assign : (isSet : Bool) → FoldedName → Value → M Unit
  /-- All other statements. -/
  other : Node → M Unit
  declare_evaluate : ∀ (decl : VarDecl Node) (value : Node), ¬ value.Mentions decl.name →
    (do declare decl; evaluate value) = (do
      let result ← evaluate value
      declare decl
      return result)

namespace BodyMachine

open ModuleText

variable {M : Type → Type} [Monad M] (machine : BodyMachine M)

def step (stmt : Node) : M Unit :=
  match stmt.shape with
  | .localVar decl =>
    match decl.init with
    | none => machine.declare decl
    | some value => do
      let result ← machine.evaluate value
      machine.declare { decl with init := none }
      machine.assign false (.of decl.name) result
  | .assign isSet target value =>
    match target.nameText? with
    | some name => do machine.assign isSet (.of name) (← machine.evaluate value)
    | none => machine.other stmt
  | _ => machine.other stmt

def run : List Node → M Unit
  | [] => return
  | stmt :: rest => do
    machine.step stmt
    run rest

theorem step_folded? [LawfulMonad M] {declaration assignment joined : Node}
    (found : folded? declaration assignment = some joined) (apart : AssignsApart assignment) :
    machine.step joined = (do machine.step declaration; machine.step assignment) := by
  obtain ⟨decl, isSet, target, value, name, declares, empty, -, assigns, isName, same, rfl⟩ :=
    folded?_eq_some found
  obtain ⟨target', value', name', plain, isName', unmentioned⟩ := apart
  obtain ⟨rfl, rfl, rfl⟩ := Shape.assign.inj (assigns.symm.trans plain)
  obtain rfl := Option.some.inj (isName.symm.trans isName')
  have folds : FoldedName.of name = .of decl.name := eq_of_beq same
  have apart : ¬ value.Mentions decl.name := by
    rintro ⟨part, inside, named⟩
    refine unmentioned ⟨part, inside, ?_⟩
    unfold sameName at named ⊢
    rwa [folds]
  have whole : { decl with init := none } = decl := by
    rw [← empty]
  have joins : machine.step (declaration.withShape (.localVar { decl with init := some value })) = (do
      let result ← machine.evaluate value
      machine.declare decl
      machine.assign false (.of decl.name) result) := by
    conv_rhs => rw [← whole]
    rfl
  calc machine.step (declaration.withShape (.localVar { decl with init := some value }))
      = (do
          let result ← (do
            let result ← machine.evaluate value
            machine.declare decl
            return result)
          machine.assign false (.of decl.name) result) := by
        rw [joins]
        simp only [bind_assoc, pure_bind]
    _ = (do
          let result ← (do machine.declare decl; machine.evaluate value)
          machine.assign false (.of decl.name) result) := by
        rw [machine.declare_evaluate decl value apart]
    _ = (do machine.step declaration; machine.step assignment) := by
        simp only [step, declares, empty, assigns, isName, folds, bind_assoc]

theorem run_joinInitializers [LawfulMonad M] {stmts : List Node} (apart : JoinsApart stmts) :
    machine.run (joinInitializers stmts) = machine.run stmts := by
  induction stmts using joinInitializers.induct with
  | case1 declaration next rest joined found ih =>
    have here : AssignsApart next := apart declaration next
      ⟨[], rest, rfl⟩ (by rw [found]; rfl)
    have later : JoinsApart rest := fun first second inside =>
      apart first second (List.infix_cons (List.infix_cons inside))
    rw [joinInitializers, found]
    simp only [run, machine.step_folded? found here, ih later, bind_assoc]
  | case2 declaration next rest plain ih =>
    have later : JoinsApart (next :: rest) := fun first second inside =>
      apart first second (List.infix_cons inside)
    rw [joinInitializers, plain]
    simp only [run] at ih ⊢
    rw [ih later]
  | case3 stmts short =>
    rcases stmts with _ | ⟨first, _ | ⟨second, rest⟩⟩
    · rfl
    · rfl
    · exact absurd rfl (short first second rest)

def putNumber (cells : FoldedName → Option Int) (name : FoldedName) (value : Int) :
    FoldedName → Option Int := fun other => if other = name then some value else cells other

/-- A machine on numbers. A variable that comes into being holds zero, and an expression that is neither
a number nor the name of a variable has no value. -/
def onNumbers : BodyMachine (StateT (FoldedName → Option Int) Option) where
  Value := Int
  declare decl := fun cells => some ((), putNumber cells (.of decl.name) 0)
  evaluate node := fun cells =>
    match node.shape with
    | .literal (.int value) => some (value.toInt, cells)
    | .name text => (cells (.of text)).map (·, cells)
    | _ => none
  assign _ name value := fun cells => some ((), putNumber cells name value)
  other _ := fun _ => none
  declare_evaluate decl value apart := by
    funext cells
    change (match value.shape with
      | .literal (.int value) =>
        some (value.toInt, putNumber cells (.of decl.name) 0)
      | .name text => (putNumber cells (.of decl.name) 0 (.of text)).map
          (·, putNumber cells (.of decl.name) 0)
      | _ => none) = Option.bind (match value.shape with
      | .literal (.int value) => some (value.toInt, cells)
      | .name text => (cells (.of text)).map (·, cells)
      | _ => none) fun found => some (found.1, putNumber found.2 (.of decl.name) 0)
    split
    · rfl
    · rename_i text shape
      have differs : FoldedName.of text ≠ .of decl.name := fun same =>
        apart ⟨value, value.mem_descendants_self, by
          rw [Node.nameText?, shape]
          exact beq_iff_eq.2 same⟩
      rw [putNumber, if_neg differs]
      cases cells (.of text) <;> rfl
    · rfl

end BodyMachine

/-- What becomes of the statements of a constructor when initial values are joined. Taken back into
assignments, these give the statements; and where no assignment that is joined is a `Set` or has a
value that mentions the variable, running the statements does the same as before. -/
theorem ModuleText.joinInitializers_expands_and_runs (stmts : List Node) :
    Expands (joinInitializers stmts) stmts ∧
      ∀ (M : Type → Type) [Monad M] [LawfulMonad M] (machine : BodyMachine M), JoinsApart stmts →
        machine.run (joinInitializers stmts) = machine.run stmts :=
  ⟨joinInitializers_expands stmts, fun _ _ _ machine apart => machine.run_joinInitializers apart⟩

def ModuleText.declaredThenAssigned (value : Shape Node) : List Node :=
  [.made ⟨0⟩ 1 (.localVar { name := "x" }),
    .made ⟨3⟩ 2 (.assign false (.made ⟨1⟩ 2 (.name "X")) (.made ⟨2⟩ 2 value))]

open ModuleText BodyMachine in
theorem ModuleText.joinInitializers_expands_and_runs_two :
    JoinsApart (declaredThenAssigned (.literal (.int 2))) ∧
    onNumbers.run (joinInitializers (declaredThenAssigned (.literal (.int 2)))) =
      onNumbers.run (declaredThenAssigned (.literal (.int 2))) ∧
    (joinInitializers (declaredThenAssigned (.literal (.int 2)))).length = 1 ∧
    (onNumbers.run (declaredThenAssigned (.literal (.int 2))) fun _ => none).map
      (·.2 (.of "x")) = some (some 2) := by
  have apart : JoinsApart (declaredThenAssigned (.literal (.int 2))) := by
    intro declaration assignment inside _
    obtain ⟨-, tails⟩ := List.cons.inj (inside.eq_of_length rfl)
    obtain ⟨rfl, -⟩ := List.cons.inj tails
    refine ⟨_, _, _, rfl, rfl, ?_⟩
    rintro ⟨part, listed, named⟩
    rw [Node.descendants_eq] at listed
    obtain rfl := List.mem_singleton.1 listed
    exact nomatch named
  refine ⟨apart, (joinInitializers_expands_and_runs _).2 _ onNumbers apart, ?_, ?_⟩
  · cbv
  · cbv

end ScriptMigration
