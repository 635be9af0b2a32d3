import ScriptMigration.Proofs.Resolution.Grounded

/-! The procedures of a resolved script. They hold nothing that a text cannot have, so they still give
back their values by assigning them to names, and something is known of each of them. -/
namespace ScriptMigration

/-- A resolved draft in which no value is returned yet: its tree holds nothing that a text cannot have,
every procedure is described, and nothing is bound that is still to be made. -/
structure Draft.Unreturned (draft : Draft) : Prop extends draft.Grounded where
  source : draft.root.InSource
  described : ∀ node ∈ draft.root.descendants, node.shape.family = .method →
    (draft.notes.descriptor? node.id).isSome
  unbound : ∀ id : NodeId, draft.fresh ≤ id.index → draft.notes.binding? id = none

section Marks

theorem ResolutionState.isSource_declareIn (implicit : List ImplicitLocal) (node : Node) :
    (declareIn implicit node).shape.isSource = node.shape.isSource := by
  by_cases isBlock : node.shape.family = .block
  · obtain ⟨stmts, shape⟩ := (Shape.family_eq_block_iff _).1 isBlock
    rw [(declareIn_block shape).2, shape]
    rfl
  · rw [declareIn_of_family isBlock]

theorem Obligation.isSource_apply (obligations : Std.HashSet Obligation) (node : Node) :
    (apply obligations node).shape.isSource = node.shape.isSource := by
  rcases node with ⟨info, shape⟩
  cases shape with
  | field | method | property =>
    change (if _ = true then _ else _ : Node).shape.isSource = _
    split <;> rfl
  | _ => rfl

theorem Node.isSource_withVisibility (node : Node) :
    node.withVisibility.shape.isSource = node.shape.isSource := by
  rcases node with ⟨info, shape⟩
  cases shape with
  | type | field | method | property =>
    change (if _ = true then _ else _ : Node).shape.isSource = _
    split <;> rfl
  | _ => rfl

namespace Surroundings

variable {around : Surroundings} {draft : Draft}

theorem isSource_payFields (node : Node) :
    (around.payFields draft node).shape.isSource = node.shape.isSource := by
  rcases node with ⟨info, shape⟩
  cases shape <;> rfl

theorem origin_owed {marks : TypeMarks} {outer : Option NodeId} {field : OwedField}
    (listed : field ∈ around.owedFields marks outer) : field.origin ≠ .returnValue := by
  unfold owedFields at listed
  dsimp only at listed
  rcases List.mem_append.1 listed with earlier | missing
  · rcases List.mem_append.1 earlier with outer | form
    · split at outer
      · obtain rfl := List.mem_singleton.1 outer
        nofun
      · exact nomatch outer
    · split at form
      · obtain rfl := List.mem_singleton.1 form
        nofun
      · exact nomatch form
  · split at missing
    · obtain rfl := List.mem_singleton.1 missing
      nofun
    · exact nomatch missing

theorem isSource_paidFields {type leaf : Node} (found : leaf ∈ around.paidFields draft type) :
    leaf.shape.isSource := by
  obtain ⟨entry, listed, rfl⟩ := List.mem_map.1 found
  unfold newFields at listed
  split at listed
  · obtain ⟨⟨field, plane⟩, paired, rfl⟩ := List.mem_map.1 listed
    have among := (List.mem_filter.1 (List.fst_mem_of_mem_zipIdx paired)).1
    exact bne_iff_ne.2 (origin_owed among)
  · exact nomatch listed

end Surroundings

end Marks

section Sweeps

variable {around : Surroundings} {roles : NodeId → Role} {state : ResolutionState} {bound : Nat}

def ResolutionState.DeclaresSource (state : ResolutionState) : Prop :=
  ∀ entry ∈ state.implicit, entry.decl.shape.isSource

theorem Touches.declaresSource {place : Place} {allowed : Descriptor → Prop}
    {after : ResolutionState} (touches : Touches around roles allowed place state after)
    (source : state.DeclaresSource) : after.DeclaresSource := by
  induction touches with
  | refl => exact source
  | tail _ touch ih =>
    cases touch with
    | declare _ taken =>
      obtain ⟨_, _, _, _, _, rfl⟩ := ResolutionState.declare_eq_some taken
      exact List.forall_mem_cons.2 ⟨rfl, ih⟩
    | record | bind | decide | judge | copy | rise => exact ih

namespace ResolutionState

structure Sourced (state : ResolutionState) : Prop where
  root : state.root.InSource
  implicit : state.DeclaresSource

namespace Sourced

theorem settleImplicit (sourced : state.Sourced) (fits : state.Fits around roles) :
    state.settleImplicit.Sourced := by
  rw [settleImplicit_eq]
  have adds := declareIn_adds fun entry listed => (fits.implicit entry listed).2.2.1
  refine ⟨sourced.root.mapUp adds (fun node source => ?_) fun node leaf found => ?_,
    List.forall_mem_nil _⟩
  · rwa [isSource_declareIn]
  · obtain ⟨entry, listed, rfl, _⟩ := mem_leavesOf found
    exact sourced.implicit entry listed

theorem walk (sourced : state.Sourced) (fits : state.Fits around roles)
    (static : around.Fits roles bound) (older : bound ≤ state.fresh) (final : Bool) :
    (around.walk final state.root.placesUp state).Sourced := by
  refine ⟨?_, ?_⟩
  · rw [(fits.walk final static older fun _ listed => listed).2.root]
    exact sourced.root
  · refine fits.walk_induction final static older (fun _ listed => listed)
      (motive := (·.DeclaresSource)) sourced.implicit ?_
    intro before place beforeFits olderBefore sameRoot listed source
    have touches := beforeFits.visit_touches final static olderBefore (sameRoot ▸ listed)
    exact touches.declaresSource source

theorem sweep (sourced : state.Sourced) (fits : state.Fits around roles)
    (static : around.Fits roles bound) (older : bound ≤ state.fresh) (final : Bool) :
    (around.sweep final state).Sourced := by
  have started : { state with changed := false }.Sourced := ⟨sourced.root, sourced.implicit⟩
  have startedFits := fits.record state.cache state.warnings state.obligations false
  exact (started.walk startedFits static older final).settleImplicit
    (startedFits.walk final static older fun _ listed => listed).1

theorem settle (sourced : state.Sourced) (draft : Draft) :
    (around.settle draft state).root.InSource := by
  have none' (node leaf : Node) (absurd : leaf ∈ ([] : List Node)) : leaf.shape.isSource :=
    nomatch absurd
  rw [Surroundings.root_settle]
  have marked := sourced.root.mapUp (Obligation.apply_adds state.obligations)
    (fun node source => (Obligation.isSource_apply _ node).trans source) none'
  have pays : Node.Adds (around.payFields (around.undeferred draft state)) _ :=
    Surroundings.payFields_adds
  have paid := marked.mapUp pays (fun node source => (Surroundings.isSource_payFields node).trans source)
    fun _ _ => Surroundings.isSource_paidFields
  exact paid.mapUp Node.withVisibility_adds
    (fun node source => (Node.isSource_withVisibility node).trans source) none'

end Sourced

theorem Keeps.settle_unbound {old : Node} (keeps : state.Keeps roles old)
    (fits : state.Fits around roles) (draft : Draft) {id : NodeId}
    (large : (around.settle draft state).fresh ≤ id.index) :
    (around.settle draft state).notes.binding? id = none := by
  have later : state.fresh ≤ id.index :=
    Nat.le_trans (Nat.le_mul_of_pos_left state.fresh (by decide)) large
  rw [Surroundings.binding?_settle]
  refine Option.eq_none_iff_forall_ne_some.2 fun binding noted => ?_
  exact nomatch (fits.later id later).symm.trans (keeps.binds id binding noted)

theorem Fits.sweep_describes_methods (fits : state.Fits around roles) (static : around.Fits roles bound)
    (older : bound ≤ state.fresh) {node : Node}
    (inside : node ∈ (around.sweep true state).root.descendants)
    (isMethod : node.shape.family = .method) :
    ((around.sweep true state).notes.descriptor? node.id).isSome := by
  have started := fits.record state.cache state.warnings state.obligations false
  obtain ⟨place, listed, traces, noted⟩ := fits.exists_walked static older true inside
    (by rw [isMethod]; decide)
  have filled : place.node.shape.isFilled := by
    obtain ⟨decl, shape⟩ := (Shape.family_eq_method_iff _).1 (traces.family.symm.trans isMethod)
    rw [shape]
    rfl
  rw [noted, traces.id]
  exact started.walk_fills static older listed filled

end ResolutionState

end Sweeps

namespace Draft.Prepared

variable {symbols : SymbolTable} {options : MigrationOptions} {store : ScriptStore}
  {id : ScriptId} {script : Script} {draft : Draft}

theorem resolveDraft_unreturned (prepared : draft.Prepared) (cache : MemberMemo) {resolved : Draft}
    (isResolved : ((Surroundings.forScript symbols options store id script draft).resolveDraft draft
      cache).draft = resolved) : resolved.Unreturned := by
  have grounded := (prepared.resolveDraft_grounded cache isResolved).1
  obtain ⟨outer, static, before, underway, keeps, sourced, rfl⟩ :=
    prepared.resolveDraft_induction cache rfl isResolved (motive := ResolutionState.Sourced)
      ⟨prepared.asRead.source, List.forall_mem_nil _⟩ fun final static _ underway sourced =>
        sourced.sweep underway.fits static underway.older final
  have ends := underway.sweep static true
  refine ⟨grounded, sourced.settle draft, fun node inside isMethod => ?_, fun id large =>
    keeps.settle_unbound ends.fits draft large⟩
  rcases Surroundings.mem_settle inside with ⟨old, lies, traces⟩ | ⟨_, _, _, isField⟩
  · rw [traces.family] at isMethod
    have declares : old.shape.isDeclaration := by
      obtain ⟨decl, shape⟩ := (Shape.family_eq_method_iff _).1 isMethod
      rw [shape]
      rfl
    obtain ⟨descriptor, noted, _⟩ := ends.fits.settle_describes_old outer draft lies declares
      (underway.fits.sweep_describes_methods static underway.older lies isMethod)
    rw [traces.id]
    exact Option.isSome_of_eq_some noted
  · exact nomatch isMethod.symm.trans isField

end Draft.Prepared

end ScriptMigration
