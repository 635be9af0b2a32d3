import ScriptMigration.Proofs.Reshape.ReturnValue
import ScriptMigration.Proofs.Resolution.Resolved
import ScriptMigration.Proofs.Syntax.Tree

/-! Drafts on their way through a migration. Whatever steps were taken so far, their nodes form a
tree: no step leaves a node in two places, and what it makes gets identities of its own. -/
namespace ScriptMigration

section Settle

variable {around : Surroundings} {draft : Draft}

namespace Surroundings

def fieldPlanes (around : Surroundings) (type : Node) : List Nat :=
  match type.typeDecl? with
  | some decl => List.range' 1 (around.missingFields type decl).length
  | none => []

theorem ids_newFields (type : Node) : (around.newFields draft type).map Prod.fst =
    (around.fieldPlanes type).map (draft.newId · type.id) := by
  unfold newFields fieldPlanes
  cases type.typeDecl? with
  | none => rfl
  | some decl =>
    dsimp only
    rw [List.map_map, ← List.zipIdx_map_snd 1 (around.missingFields type decl), List.map_map]
    rfl

theorem owedFields_length (marks : TypeMarks) (outer : Option NodeId) :
    (around.owedFields marks outer).length ≤ 3 := by
  unfold owedFields
  simp only [List.length_append]
  split <;> split <;> split <;> simp

theorem fieldPlanes_cases {type : Node} {plane : Nat} (listed : plane ∈ around.fieldPlanes type) :
    1 ≤ plane ∧ plane ≤ 3 := by
  unfold fieldPlanes at listed
  split at listed
  · rename_i decl _
    have few : (around.missingFields type decl).length ≤ 3 :=
      Nat.le_trans (List.length_filter_le ..) (owedFields_length ..)
    have range := List.mem_range'_1.1 listed
    omega
  · exact nomatch listed

theorem fieldPlanes_nodup (type : Node) : (around.fieldPlanes type).Nodup := by
  unfold fieldPlanes
  split
  · exact List.nodup_range'
  · exact List.nodup_nil

end Surroundings

open Surroundings

namespace Draft.Tidy

theorem payObligations (tidy : draft.Tidy) : (around.payObligations draft).Tidy := by
  have gained : (draft.root.descendants.flatMap fun old =>
      (around.paidFields draft (old.rebuilt (around.payFields draft))).map Node.id) =
        draft.root.descendants.flatMap fun node =>
          (around.fieldPlanes node).map (draft.newId · node.id) := by
    refine List.flatMap_congr fun old _ => ?_
    rw [paidFields, newFields_rebuilt, List.map_map, ← ids_newFields]
    rfl
  refine tidy.regroup payFields_adds.regroups (fun _ _ => trivial)
    (Nat.le_mul_of_pos_left _ (by decide)) ?_ ?_
  · rw [gained]
    exact tidy.newIds_bounds fun node plane listed => fieldPlanes_cases listed
  · rw [gained]
    exact tidy.newIds_nodup fun node _ => fieldPlanes_nodup node

theorem settle {state : ResolutionState} (distinct : state.root.Distinct)
    (small : ∀ node ∈ state.root.descendants, node.id.index < state.fresh) :
    (around.settle draft state).Tidy := by
  have before : Tidy { draft with root := state.root, fresh := state.fresh } := ⟨distinct, small⟩
  have marked : (around.undeferred draft state).Tidy :=
    before.regroupSame (Obligation.apply_adds state.obligations).regroups fun _ _ => trivial
  exact marked.payObligations.regroupSame Node.withVisibility_adds.regroups fun _ _ => trivial

theorem prune (tidy : draft.Tidy) {f : Node → Node}
    (cuts : ∀ node, f node = node ∨ (f node).id = node.id ∧ (f node).children = [])
    {parents : ParentLinks} {notes : Notes} {retired : List Retired} :
    Tidy { draft with root := draft.root.mapUp f, parents, notes, retired } := by
  refine tidy.ofFewer fun id => ?_
  rw [← Node.tally_eq_count, ← Node.tally_eq_count]
  have step (node : Node) : (f node).tally (fun _ => true) id + 0 ≤
      node.tally (fun _ => true) id + 0 := by
    rcases cuts node with same | ⟨same, none⟩
    · rw [same]
    · rw [Node.tally_eq, Node.tally_eq _ _ node, Node.counts, Node.counts, same, none]
      simp
  have whole := Node.tally_mapUp f (fun _ => 0) (fun _ => 0) (fun _ => rfl)
    fun old (_ : old ∈ draft.root.descendants) => step (old.rebuilt f)
  simpa using whole

theorem markStatic (tidy : draft.Tidy) (static : Bool) : (draft.markStatic static).Tidy := by
  unfold Draft.markStatic
  split
  · rename_i decl shape
    have parts : (draft.root.withShape (.type { decl with
        marks := { decl.marks with static } })).children = draft.root.children := by
      rw [Node.children, Node.children, shape]
      rfl
    refine tidy.ofFewer fun id => ?_
    rw [Node.ids_eq, Node.ids_eq draft.root, parts]
    exact Nat.le_refl _
  · exact tidy

theorem typeCreations (tidy : draft.Tidy) (symbols : SymbolTable) :
    (draft.typeCreations symbols).1.Tidy := by
  refine tidy.prune fun node => ?_
  split
  · exact .inr ⟨rfl, rfl⟩
  · exact .inl rfl

theorem moveTexts (tidy : draft.Tidy) (symbols : SymbolTable) (options : MigrationOptions) :
    (draft.moveTexts symbols options).1.Tidy := by
  refine tidy.prune fun node => ?_
  dsimp only
  split
  · exact .inr ⟨rfl, rfl⟩
  · exact .inl rfl

end Draft.Tidy

theorem Draft.Formed.resolveDraft_tidy {symbols : SymbolTable} {options : MigrationOptions}
    {store : ScriptStore} {id : ScriptId} {script : Script} (formed : draft.Formed)
    (cache : MemberMemo) :
    ((Surroundings.forScript symbols options store id script draft).resolveDraft draft
      cache).draft.Tidy := by
  have static : (Surroundings.forScript symbols options store id script draft).Fits
      draft.root.roleOf draft.fresh := formed.surroundings_fit
  have swept := ((formed.start_underway cache).sweeps static options.maxAttempts).1.sweep static true
  exact .settle swept.fits.tree.distinct swept.fits.tree.small

end Settle

/-- A draft as it was read, or after some of the steps of a migration: any of the changes that need
no types, resolving it among other scripts, and any of the changes after that. -/
inductive Draft.Migrating : Draft → Prop where
  | prepared {draft : Draft} (prepared : draft.Prepared) : Migrating draft
  | resolved {store : ScriptStore} {symbols : SymbolTable} {options : MigrationOptions}
      {cache : MemberMemo} {id : ScriptId} {draft after : Draft}
      (read : store.draft? id = some draft) (prepared : draft.Prepared)
      (found : (store.resolve symbols options cache id).store.draft? id = some after) :
      Migrating after
  | returnValues {draft : Draft} (localName : String) (migrating : draft.Migrating) :
      (draft.returnValues localName).1.Migrating
  | markStatic {draft : Draft} (static : Bool) (migrating : draft.Migrating) :
      (draft.markStatic static).Migrating
  | typeCreations {draft : Draft} (symbols : SymbolTable) (migrating : draft.Migrating) :
      (draft.typeCreations symbols).1.Migrating
  | moveTexts {draft : Draft} (symbols : SymbolTable) (options : MigrationOptions)
      (migrating : draft.Migrating) : (draft.moveTexts symbols options).1.Migrating

namespace Draft.Migrating

variable {draft : Draft}

theorem tidy (migrating : draft.Migrating) : draft.Tidy := by
  induction migrating with
  | prepared prepared => exact prepared.formed.toTidy
  | @resolved store symbols options cache id draft after read prepared found =>
    obtain ⟨script, listed, isRead⟩ := ScriptStore.exists_script read
    rw [(ScriptStore.resolve_eq symbols options cache listed isRead).1,
      ScriptStore.draft?_setDraft listed] at found
    obtain rfl := Option.some.inj found
    exact prepared.formed.resolveDraft_tidy cache
  | returnValues localName _ ih => exact ih.returnValues localName
  | markStatic static _ ih => exact ih.markStatic static
  | typeCreations symbols _ ih => exact ih.typeCreations symbols
  | moveTexts symbols options _ ih => exact ih.moveTexts symbols options

end Draft.Migrating

end ScriptMigration
