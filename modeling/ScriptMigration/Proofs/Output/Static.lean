import Mathlib.Logic.Relation
import Mathlib.Order.Bounds.Basic
import ScriptMigration.Proofs.Migration.References

/-! Static scripts are those from which only scripts without state can be reached. They are found by
rounds that take out what depends on anything outside; what depends only on itself survives every round,
so scripts that depend on each other stay or go together. -/
namespace ScriptMigration

theorem Draft.isStateless_iff {draft : Draft} : draft.isStateless ↔
    ∃ decl, draft.root.typeDecl? = some decl ∧
      ∀ member ∈ decl.members, ∀ entry, member.shape = .field entry → entry.marks.const := by
  rw [isStateless, Option.any_eq_true]
  refine exists_congr fun decl => and_congr_right fun _ => ?_
  rw [List.all_eq_true]
  refine forall₂_congr fun member _ => ?_
  cases member.shape <;> simp

theorem Draft.markStatic_eq (draft : Draft) (static : Bool) :
    (∀ decl, draft.root.typeDecl? = some decl → draft.markStatic static = { draft with
      root := draft.root.withShape (.type { decl with marks := { decl.marks with static } }) }) ∧
    (draft.root.typeDecl? = none → draft.markStatic static = draft) := by
  refine ⟨fun decl isType => ?_, fun untyped => ?_⟩
  · rw [markStatic, Node.shape_of_typeDecl? isType]
  · unfold markStatic
    split
    · rename_i shape
      rw [Node.typeDecl?, shape] at untyped
      cases untyped
    · rfl

namespace ScriptStore

variable (store : ScriptStore)

def Depends (id other : ScriptId) : Prop :=
  ∃ script, store.get? id = some script ∧ other ∈ script.dependencies

def Reaches : ScriptId → ScriptId → Prop := Relation.ReflTransGen store.Depends

def Stateless (id : ScriptId) : Prop :=
  ∃ draft decl, store.draft? id = some draft ∧ draft.root.typeDecl? = some decl ∧
    ∀ member ∈ decl.members, ∀ entry, member.shape = .field entry → entry.marks.const

def StandAlone (scripts : Set ScriptId) : Prop :=
  ∀ id ∈ scripts, store.Stateless id ∧ ∀ other, store.Depends id other → other ∈ scripts

variable {store} {scripts : List ScriptId} {alone : Set ScriptId} {id : ScriptId}

theorem stateless_iff : store.Stateless id ↔ (store.draft? id).any Draft.isStateless := by
  rw [Option.any_eq_true]
  refine exists_congr fun draft => ?_
  rw [Draft.isStateless_iff, exists_and_left]

theorem Stateless.listed (stateless : store.Stateless id) : id ∈ store.ids := by
  obtain ⟨draft, _, found, _⟩ := stateless
  obtain ⟨script, listed, _⟩ := exists_script found
  exact mem_ids_of_get? listed

section Rounds

theorem mem_closedPart :
    id ∈ store.closedPart scripts ↔ id ∈ scripts ∧ ∀ other, store.Depends id other → other ∈ scripts := by
  rw [closedPart, List.mem_filter]
  refine and_congr_right fun _ => ?_
  simp only [Option.all_eq_true, List.all_eq_true, List.contains_iff_mem]
  exact ⟨fun keeps other ⟨script, listed, depends⟩ => keeps script listed other depends,
    fun keeps script listed other depends => keeps other ⟨script, listed, depends⟩⟩

theorem StandAlone.subset_closedPart (stands : store.StandAlone alone)
    (among : ∀ id ∈ alone, id ∈ scripts) : ∀ id ∈ alone, id ∈ store.closedPart scripts :=
  fun id inside => mem_closedPart.2
    ⟨among id inside, fun other depends => among other ((stands id inside).2 other depends)⟩

theorem closedPart_eq_of_length_le
    (long : scripts.length ≤ (store.closedPart scripts).length) :
    store.closedPart scripts = scripts :=
  List.filter_sublist.eq_of_length_le long

theorem settled_rounds (scripts : List ScriptId) : ∃ rounds ≤ scripts.length,
    store.settled scripts = store.closedPart^[rounds] scripts ∧
      store.closedPart (store.settled scripts) = store.settled scripts := by
  induction scripts using settled.induct store with
  | case1 scripts shrinks ih =>
    obtain ⟨rounds, few, same, stays⟩ := ih
    rw [settled, if_pos shrinks]
    exact ⟨rounds + 1, Nat.lt_of_le_of_lt few shrinks, same, stays⟩
  | case2 scripts stays =>
    rw [settled, if_neg stays]
    exact ⟨0, Nat.zero_le _, rfl, closedPart_eq_of_length_le (Nat.le_of_not_lt stays)⟩

theorem mem_of_mem_settled (inside : id ∈ store.settled scripts) : id ∈ scripts := by
  induction scripts using settled.induct store with
  | case1 scripts shrinks ih =>
    rw [settled, if_pos shrinks] at inside
    exact (mem_closedPart.1 (ih inside)).1
  | case2 scripts stays =>
    rwa [settled, if_neg stays] at inside

theorem StandAlone.subset_settled (stands : store.StandAlone alone)
    (among : ∀ id ∈ alone, id ∈ scripts) : ∀ id ∈ alone, id ∈ store.settled scripts := by
  induction scripts using settled.induct store with
  | case1 scripts shrinks ih =>
    rw [settled, if_pos shrinks]
    exact ih (stands.subset_closedPart among)
  | case2 scripts stays =>
    rwa [settled, if_neg stays]

variable (candidates : ∀ id, id ∈ scripts ↔ store.Stateless id)

include candidates

theorem settled_standAlone : store.StandAlone {id | id ∈ store.settled scripts} := by
  obtain ⟨_, _, _, stays⟩ := @settled_rounds store scripts
  intro id inside
  refine ⟨(candidates id).1 (mem_of_mem_settled inside), ?_⟩
  exact (mem_closedPart.1 (stays.symm ▸ inside : id ∈ store.closedPart (store.settled scripts))).2

theorem mem_settled :
    id ∈ store.settled scripts ↔ ∀ other, store.Reaches id other → store.Stateless other := by
  constructor
  · intro inside other reaches
    have stands := settled_standAlone candidates
    suffices other ∈ store.settled scripts from (stands other this).1
    induction reaches with
    | refl => exact inside
    | tail _ depends ih => exact (stands _ ih).2 _ depends
  · have stands : store.StandAlone {id | ∀ other, store.Reaches id other → store.Stateless other} :=
      fun id reaches => ⟨reaches id .refl, fun other depends last later =>
        reaches last (later.head depends)⟩
    exact stands.subset_settled (fun id reaches => (candidates id).2 (reaches id .refl)) id

theorem settled_greatest :
    IsGreatest {alone | store.StandAlone alone} {id | id ∈ store.settled scripts} :=
  ⟨settled_standAlone candidates, fun _ stands => stands.subset_settled fun id inside =>
    (candidates id).2 (stands id inside).1⟩

end Rounds

theorem mem_candidates :
    id ∈ store.ids.filter (fun id => (store.draft? id).any Draft.isStateless) ↔
      store.Stateless id := by
  rw [List.mem_filter, ← stateless_iff, and_iff_right_of_imp Stateless.listed]

theorem get?_markStatics (store : ScriptStore) (id : ScriptId) : store.markStatics.1.get? id =
    (store.get? id).map (·.redraft (·.markStatic (store.statics.contains id))) := by
  obtain ⟨f, changed⟩ := Redrafted.markStatics store id
  have marked := draft?_markStatics store id
  rw [changed]
  cases listed : store.get? id with
  | none => rfl
  | some script =>
    rw [draft?, changed, draft?, listed] at marked
    simp only [Option.map_some, Option.bind_some, Script.draft?_redraft] at marked
    unfold Script.redraft
    unfold Script.draft? at marked
    rcases script with ⟨_, _, _, _ | draft | _, _, _⟩
    · rfl
    · exact congrArg (fun draft => some (Script.mk _ _ _ (.read draft) _ _)) (Option.some.inj marked)
    · rfl

/-- Marking finds the greatest set of scripts without state that depend only on each other, in whatever
order the scripts are gone through, and marks the root types of all scripts by it. -/
theorem markStatics_marks (store : ScriptStore) :
    (∀ id, id ∈ store.markStatics.2 ↔
      ∀ other, store.Reaches id other → store.Stateless other) ∧
    IsGreatest {alone | store.StandAlone alone} {id | id ∈ store.markStatics.2} ∧
    (∀ scripts, (∀ id, id ∈ scripts ↔ store.Stateless id) →
      (∀ id, id ∈ store.settled scripts ↔ id ∈ store.markStatics.2) ∧
      ∃ rounds ≤ scripts.length, store.settled scripts = store.closedPart^[rounds] scripts ∧
        store.closedPart (store.settled scripts) = store.settled scripts) ∧
    ∀ id,
      (store.draft? id = none → store.markStatics.1.get? id = store.get? id) ∧
      ∀ script draft, store.get? id = some script → script.draft? = some draft →
        ∃ marked, store.markStatics.1.get? id = some { script with reading := .read marked } ∧
          (draft.root.typeDecl? = none → marked = draft) ∧
          ∀ decl, draft.root.typeDecl? = some decl → ∃ static : Bool,
            (static ↔ id ∈ store.markStatics.2) ∧ marked = { draft with
              root := draft.root.withShape (.type { decl with
                marks := { decl.marks with static } }) } := by
  have found {id : ScriptId} : id ∈ store.statics ↔
      ∀ other, store.Reaches id other → store.Stateless other := mem_settled fun _ => mem_candidates
  refine ⟨fun _ => found, settled_greatest fun _ => mem_candidates, fun scripts candidates => ?_,
    fun id => ⟨fun unread => ?_, fun script draft listed read => ?_⟩⟩
  · exact ⟨fun id => (mem_settled candidates).trans found.symm, settled_rounds scripts⟩
  · rw [get?_markStatics]
    cases listed : store.get? id with
    | none => rfl
    | some script =>
      rw [draft?, listed] at unread
      rcases script with ⟨_, _, _, _ | _ | _, _, _⟩
      · rfl
      · cases unread
      · rfl
  · obtain ⟨marks, keeps⟩ := draft.markStatic_eq (store.statics.contains id)
    refine ⟨_, ?_, keeps, fun decl isType => ⟨_, List.contains_iff_mem, marks decl isType⟩⟩
    rw [get?_markStatics, listed]
    unfold Script.draft? at read
    rcases script with ⟨_, _, _, _ | _ | _, _, _⟩
    · cases read
    · rw [← Option.some.inj read]
      rfl
    · cases read

end ScriptStore

end ScriptMigration
