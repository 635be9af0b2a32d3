import ScriptMigration.Diagnostic
import ScriptMigration.Resolution.Settle

/-! Resolving a script: names are bound and types inferred in sweeps until a sweep finds out nothing
or there were enough, and a last sweep decides what is left. -/
namespace ScriptMigration

/-- What came of resolving a script. -/
structure ResolutionOutcome where
  /-- The number of sweeps before the last one. -/
  attempts : Nat := 0
  /-- Whether one of them found out nothing. -/
  converged : Bool := false
  /-- The number of names that stand for nothing. -/
  unresolved : Nat := 0
deriving DecidableEq, Repr

structure ResolvedDraft where
  draft : Draft
  cache : MemberMemo
  outcome : ResolutionOutcome
  diagnostics : List Diagnostic

namespace Surroundings

variable (around : Surroundings)

/-- Up to the given number of sweeps, to the first that finds out nothing. -/
def sweeps : Nat → ResolutionState → ResolutionOutcome × ResolutionState
  | 0, state => ({}, state)
  | bound + 1, state =>
    let state := around.sweep false state
    if state.changed then
      let (outcome, state) := sweeps bound state
      ({ outcome with attempts := outcome.attempts + 1 }, state)
    else ({ attempts := 1, converged := true }, state)

/-- What is known before the first sweep. -/
def start (draft : Draft) (cache : MemberMemo) : ResolutionState where
  root := draft.root
  parents := draft.parents
  notes := around.declared.fold (fun notes id type =>
    if notes.descriptor? id == some type then notes else notes.describe id type) draft.notes
  bodies := (ScopeIndex.ofTree draft.root).bodies
  cache := cache
  fresh := draft.fresh

def duplicateWarnings (root : Node) : List String :=
  root.typesBelow.flatMap fun type =>
    match around.types[type.id]? with
    | none => []
    | some scope => scope.duplicates.map fun duplicate =>
        s!"{around.label}: duplicate member '{duplicate.name}' in '{scope.name}' "
          ++ s!"(line {duplicate.line})"

def settle (draft : Draft) (state : ResolutionState) : Draft :=
  let draft := { draft with
    root := state.root.mapUp (Obligation.apply state.obligations)
    parents := state.parents
    notes := state.notes
    fresh := state.fresh }
  let draft := { draft with notes := around.withoutDeferred draft.nodesById draft.notes }
  let draft := around.payObligations draft
  { draft with root := draft.root.mapUp Node.withVisibility }

def unresolvedCount (draft : Draft) : Nat :=
  (draft.nodes.filter fun node => draft.notes.binding? node.id == some .unresolved).length

def resolveDraft (draft : Draft) (cache : MemberMemo) : ResolvedDraft :=
  let (outcome, state) := around.sweeps around.options.maxAttempts (around.start draft cache)
  let state := around.sweep true state
  let warnings := state.warnings ++ around.duplicateWarnings draft.root
  let draft := around.settle draft state
  { draft, cache := state.cache
    outcome := { outcome with unresolved := unresolvedCount draft }
    diagnostics := (warnings.foldl DiagnosticLog.warn {}).delivered }

end Surroundings

structure ResolvedStore where
  store : ScriptStore
  cache : MemberMemo
  outcome : ResolutionOutcome := {}
  diagnostics : List Diagnostic := []

/-- Resolves a script of a store. A script that could not be read stays as it is. -/
def ScriptStore.resolve (store : ScriptStore) (symbols : SymbolTable) (options : MigrationOptions)
    (cache : MemberMemo) (id : ScriptId) : ResolvedStore :=
  match store.get? id with
  | none => { store, cache }
  | some script =>
    match script.draft? with
    | none => { store, cache }
    | some draft =>
      let around := (Surroundings.ofScript symbols options store id script draft).withDeclared draft
      let resolved := around.resolveDraft draft cache
      { store := store.setDraft id resolved.draft
        cache := resolved.cache
        outcome := resolved.outcome
        diagnostics := resolved.diagnostics }

end ScriptMigration
