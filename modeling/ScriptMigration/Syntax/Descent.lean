import ScriptMigration.Number.Core

/-! Walks that keep a stack. A `Descent` says which things stand next below a thing, in order, and
measures how much there is at and below it. `Descent.down` lists each thing before all below it and
`Descent.up` after it. Both put what stands next below a thing on the stack from the last to the
first, so that the first comes off next. -/
namespace ScriptMigration

/-- What stands next below each thing, and a measure of what there is at and below it. -/
structure Descent (α : Type) where
  parts : α → List α
  size : α → Nat
  shrinks : ∀ thing, ((parts thing).map size).sum < size thing

namespace Descent

variable {α : Type} (descent : Descent α)

def push (things stack : List α) : List α := things.foldl (fun stack thing => thing :: stack) stack

@[simp] theorem push_reverse (things stack : List α) : push things.reverse stack = things ++ stack := by
  simp [push]

def opened (thing : α) (stack : List α) : List α := push (descent.parts thing).reverse stack

def reopened (thing : α) (stack : List (α × Bool)) : List (α × Bool) :=
  push ((descent.parts thing).map (·, false)).reverse ((thing, true) :: stack)

theorem opened_eq (thing : α) (stack : List α) :
    descent.opened thing stack = descent.parts thing ++ stack := push_reverse ..

theorem reopened_eq (thing : α) (stack : List (α × Bool)) : descent.reopened thing stack =
    (descent.parts thing).map (·, false) ++ (thing, true) :: stack := push_reverse ..

def down (stack : List α) (out : Array α) : Array α :=
  match stack with
  | [] => out
  | thing :: rest => down (descent.opened thing rest) (out.push thing)
termination_by (stack.map descent.size).sum
decreasing_by
  have smaller := descent.shrinks thing
  rw [opened_eq, List.map_append, List.sum_append, List.map_cons, List.sum_cons]
  omega

def weight : α × Bool → Nat
  | (_, true) => 1
  | (thing, false) => 2 * descent.size thing

theorem sum_weight_parts (things : List α) :
    ((things.map (·, false)).map descent.weight).sum = 2 * (things.map descent.size).sum := by
  induction things with
  | nil => rfl
  | cons thing rest ih =>
    rw [List.map_cons, List.map_cons, List.sum_cons, ih, List.map_cons, List.sum_cons, Nat.mul_add]
    rfl

/-- Takes the things off a stack. One that is met first goes back, marked, under its parts; one that
is marked has them behind it and is listed. -/
def up (stack : List (α × Bool)) (out : Array α) : Array α :=
  match stack with
  | [] => out
  | (thing, true) :: rest => up rest (out.push thing)
  | (thing, false) :: rest => up (descent.reopened thing rest) out
termination_by (stack.map descent.weight).sum
decreasing_by
  · rw [List.map_cons, List.sum_cons, weight]
    omega
  · have smaller := descent.shrinks thing
    rw [reopened_eq, List.map_append, List.sum_append, sum_weight_parts, List.map_cons,
      List.sum_cons, List.map_cons, List.sum_cons, weight, weight]
    omega

theorem down_append (first rest : List α) (out : Array α) :
    descent.down (first ++ rest) out = descent.down rest (descent.down first out) := by
  fun_induction descent.down first out with
  | case1 => rfl
  | case2 out thing first ih =>
    rw [List.cons_append, down, opened_eq, ← List.append_assoc, ← opened_eq, ih]

theorem down_listed (stack : List α) (listed out : Array α) :
    descent.down stack (listed ++ out) = listed ++ descent.down stack out := by
  fun_induction descent.down stack out with
  | case1 => rw [down]
  | case2 out thing rest ih => rw [down, ← Array.append_push, ih]

theorem up_append (first rest : List (α × Bool)) (out : Array α) :
    descent.up (first ++ rest) out = descent.up rest (descent.up first out) := by
  fun_induction descent.up first out with
  | case1 => rfl
  | case2 out thing first ih => rw [List.cons_append, up, ih]
  | case3 out thing first ih =>
    rw [List.cons_append, up, reopened_eq, ← List.cons_append, ← List.append_assoc, ← reopened_eq, ih]

theorem up_listed (stack : List (α × Bool)) (listed out : Array α) :
    descent.up stack (listed ++ out) = listed ++ descent.up stack out := by
  fun_induction descent.up stack out with
  | case1 => rw [up]
  | case2 out thing rest ih => rw [up, ← Array.append_push, ih]
  | case3 out thing rest ih => rw [up, ih]

def before (thing : α) : List α := (descent.down [thing] #[]).toList

def after (thing : α) : List α := (descent.up [(thing, false)] #[]).toList

theorem toList_down (stack : List α) (out : Array α) :
    (descent.down stack out).toList = out.toList ++ stack.flatMap descent.before := by
  induction stack generalizing out with
  | nil => simp [down]
  | cons thing rest ih =>
    have first : descent.down [thing] out = out ++ descent.down [thing] #[] := by
      rw [← down_listed, Array.append_empty]
    rw [← List.singleton_append, down_append, ih, first, Array.toList_append, List.append_assoc,
      List.flatMap_append, List.flatMap_singleton]
    rfl

theorem toList_up (things : List α) (out : Array α) :
    (descent.up (things.map (·, false)) out).toList = out.toList ++ things.flatMap descent.after := by
  induction things generalizing out with
  | nil => simp [up]
  | cons thing rest ih =>
    have first : descent.up [(thing, false)] out = out ++ descent.up [(thing, false)] #[] := by
      rw [← up_listed, Array.append_empty]
    rw [List.map_cons, ← List.singleton_append, up_append, ih, first, Array.toList_append,
      List.append_assoc, List.flatMap_cons]
    rfl

theorem before_eq (thing : α) :
    descent.before thing = thing :: (descent.parts thing).flatMap descent.before := by
  rw [before, down, opened_eq, List.append_nil, toList_down]
  rfl

theorem after_eq (thing : α) :
    descent.after thing = (descent.parts thing).flatMap descent.after ++ [thing] := by
  rw [after, up, reopened_eq, up_append, up, up, Array.toList_push, toList_up]
  rfl

end Descent

end ScriptMigration
