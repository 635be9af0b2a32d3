import ScriptMigration.Draft.Basic
import ScriptMigration.Proofs.Syntax.Regular

/-! Drafts that are well formed: every identity of the tree is used once, what was taken out of the
tree is no longer in it, and every part is of the kind that its place asks for. -/
namespace ScriptMigration

/-- A draft whose identities are used once each, and are all below those for new nodes. -/
structure Draft.Tidy (draft : Draft) : Prop where
  distinct : draft.root.Distinct
  small : ∀ node ∈ draft.root.descendants, node.id.index < draft.fresh

/-- A well formed draft of which nothing is known yet. -/
structure Draft.Formed (draft : Draft) : Prop extends draft.Tidy where
  retired : ∀ entry ∈ draft.retired, ∀ node ∈ entry.node.descendants,
    node.id.index < draft.fresh ∧ node.id ∉ draft.root.descendants.map Node.id
  regular : ∀ node ∈ draft.root.descendants, node.Regular
  unknown : draft.notes = {}

namespace Draft

variable (draft : Draft)

/-- New identities that are made in several planes from identities in use are above these. -/
theorem newId_bounds {plane planes : Nat} {source : NodeId} (first : 1 ≤ plane)
    (last : plane ≤ planes) (small : source.index < draft.fresh) :
    draft.fresh ≤ (draft.newId plane source).index ∧
      (draft.newId plane source).index < (planes + 1) * draft.fresh := by
  have low : 1 * draft.fresh ≤ plane * draft.fresh := Nat.mul_le_mul_right _ first
  have high : plane * draft.fresh ≤ planes * draft.fresh := Nat.mul_le_mul_right _ last
  rw [Nat.add_mul]
  simp only [newId]
  omega

/-- The plane and the source of a new identity can be told from it. -/
theorem newId_inj {plane other : Nat} {source target : NodeId} (small : source.index < draft.fresh)
    (alsoSmall : target.index < draft.fresh)
    (same : draft.newId plane source = draft.newId other target) :
    plane = other ∧ source = target := by
  have equal : plane * draft.fresh + source.index = other * draft.fresh + target.index :=
    congrArg NodeId.index same
  have positive : 0 < draft.fresh := by omega
  have planes := congrArg (· / draft.fresh) equal
  have sources := congrArg (· % draft.fresh) equal
  simp only [Nat.mul_comm _ draft.fresh, Nat.mul_add_div positive, Nat.div_eq_of_lt small,
    Nat.div_eq_of_lt alsoSmall, Nat.add_zero] at planes
  simp only [Nat.mul_comm _ draft.fresh, Nat.mul_add_mod, Nat.mod_eq_of_lt small,
    Nat.mod_eq_of_lt alsoSmall] at sources
  refine ⟨planes, ?_⟩
  rcases source with ⟨index⟩
  exact congrArg NodeId.mk sources

end Draft

section Regroup

variable {draft : Draft} {fits : Node → Prop} {f : Node → Node} {lost gained : Node → List NodeId}

namespace Draft.Tidy

theorem small_ids (tidy : draft.Tidy) : ∀ id ∈ draft.root.descendants.map Node.id,
    id.index < draft.fresh := by
  intro id listed
  obtain ⟨node, inside, rfl⟩ := List.mem_map.1 listed
  exact tidy.small node inside

theorem newIds_nodup (tidy : draft.Tidy) {planes : Node → List Nat}
    (once : ∀ node ∈ draft.root.descendants, (planes node).Nodup) :
    (draft.root.descendants.flatMap fun node =>
      (planes node).map (draft.newId · node.id)).Nodup := by
  refine List.nodup_flatMap.2 ⟨fun node inside => ?_, ?_⟩
  · refine List.Nodup.map_on (fun left _ right _ same => ?_) (once node inside)
    exact (draft.newId_inj (tidy.small node inside) (tidy.small node inside) same).1
  · refine (List.pairwise_map.1 tidy.distinct).imp_of_mem fun first second differ id left right => ?_
    obtain ⟨plane, -, rfl⟩ := List.mem_map.1 left
    obtain ⟨other, -, same⟩ := List.mem_map.1 right
    exact differ (draft.newId_inj (tidy.small _ second) (tidy.small _ first) same).2.symm

theorem newIds_bounds (tidy : draft.Tidy) {planes : Node → List Nat} {last : Nat}
    (within : ∀ node, ∀ plane ∈ planes node, 1 ≤ plane ∧ plane ≤ last) :
    ∀ id ∈ draft.root.descendants.flatMap fun node => (planes node).map (draft.newId · node.id),
      draft.fresh ≤ id.index ∧ id.index < (last + 1) * draft.fresh := by
  intro id listed
  obtain ⟨node, inside, made⟩ := List.mem_flatMap.1 listed
  obtain ⟨plane, among, rfl⟩ := List.mem_map.1 made
  exact draft.newId_bounds (within node plane among).1 (within node plane among).2
    (tidy.small node inside)

theorem ofCount (tidy : draft.Tidy) {root : Node} {fresh : Nat} (grows : draft.fresh ≤ fresh)
    {added : List NodeId} (bounded : ∀ id, (root.descendants.map Node.id).count id ≤
      (draft.root.descendants.map Node.id).count id + added.count id)
    (once : added.Nodup) (new : ∀ id ∈ added, draft.fresh ≤ id.index ∧ id.index < fresh)
    {parents : ParentLinks} {notes : Notes} {retired : List Retired} :
    Tidy { draft with root, parents, fresh, notes, retired } := by
  constructor
  · refine List.nodup_iff_count_le_one.2 fun id => ?_
    have bound := bounded id
    have before := List.nodup_iff_count_le_one.1 tidy.distinct id
    have single := List.nodup_iff_count_le_one.1 once id
    show (root.descendants.map Node.id).count id ≤ 1
    by_cases isAdded : id ∈ added
    · have absent := List.count_eq_zero.2 fun listed =>
        Nat.not_lt.2 (new id isAdded).1 (tidy.small_ids id listed)
      omega
    · rw [List.count_eq_zero.2 isAdded] at bound
      omega
  · intro node inside
    have present : 0 < (root.descendants.map Node.id).count node.id :=
      List.count_pos_iff.2 (List.mem_map.2 ⟨node, inside, rfl⟩)
    by_cases isAdded : node.id ∈ added
    · exact (new node.id isAdded).2
    · have bound := bounded node.id
      rw [List.count_eq_zero.2 isAdded] at bound
      have listed : node.id ∈ draft.root.descendants.map Node.id :=
        List.count_pos_iff.1 (by omega)
      exact Nat.lt_of_lt_of_le (tidy.small_ids _ listed) grows

theorem ofFewer (tidy : draft.Tidy) {root : Node} (bounded : ∀ id,
    (root.descendants.map Node.id).count id ≤ (draft.root.descendants.map Node.id).count id)
    {parents : ParentLinks} {notes : Notes} {retired : List Retired} :
    Tidy { draft with root, parents, notes, retired } :=
  tidy.ofCount (Nat.le_refl _) bounded List.nodup_nil fun _ absurd => nomatch absurd

private theorem exchange (tidy : draft.Tidy) (regroups : Node.Regroups fits f lost gained)
    (all : ∀ old ∈ draft.root.descendants, fits (old.rebuilt f)) {fresh : Nat}
    (grows : draft.fresh ≤ fresh)
    (new : ∀ id ∈ draft.root.descendants.flatMap fun old => gained (old.rebuilt f),
      draft.fresh ≤ id.index ∧ id.index < fresh)
    (apart : (draft.root.descendants.flatMap fun old => gained (old.rebuilt f)).Nodup) :
    ((draft.root.mapUp f).descendants.map Node.id ++
        draft.root.descendants.flatMap fun old => lost (old.rebuilt f)).Nodup ∧
      ∀ id ∈ (draft.root.mapUp f).descendants.map Node.id ++
        draft.root.descendants.flatMap fun old => lost (old.rebuilt f), id.index < fresh := by
  have perm := regroups.ids_mapUp all
  refine ⟨perm.nodup_iff.2 (List.nodup_append'.2 ⟨tidy.distinct, apart, fun id old added =>
    Nat.not_lt.2 (new id added).1 (tidy.small_ids id old)⟩), fun id listed => ?_⟩
  rcases List.mem_append.1 (perm.subset listed) with old | added
  · exact Nat.lt_of_lt_of_le (tidy.small_ids id old) grows
  · exact (new id added).2

theorem regroup (tidy : draft.Tidy) (regroups : Node.Regroups fits f lost gained)
    (all : ∀ old ∈ draft.root.descendants, fits (old.rebuilt f)) {fresh : Nat}
    (grows : draft.fresh ≤ fresh)
    (new : ∀ id ∈ draft.root.descendants.flatMap fun old => gained (old.rebuilt f),
      draft.fresh ≤ id.index ∧ id.index < fresh)
    (apart : (draft.root.descendants.flatMap fun old => gained (old.rebuilt f)).Nodup)
    {parents : ParentLinks} {notes : Notes} {retired : List Retired} :
    Tidy { draft with root := draft.root.mapUp f, parents, fresh, notes, retired } := by
  obtain ⟨once, below⟩ := tidy.exchange regroups all grows new apart
  exact ⟨(List.nodup_append'.1 once).1, fun node inside =>
    below _ (List.mem_append_left _ (List.mem_map.2 ⟨node, inside, rfl⟩))⟩

theorem regroupSame (tidy : draft.Tidy) (regroups : Node.Regroups fits f lost fun _ => [])
    (all : ∀ old ∈ draft.root.descendants, fits (old.rebuilt f)) {parents : ParentLinks}
    {notes : Notes} {retired : List Retired} :
    Tidy { draft with root := draft.root.mapUp f, parents, notes, retired } := by
  have none : (draft.root.descendants.flatMap fun _ => ([] : List NodeId)) = [] :=
    List.flatMap_eq_nil_iff.2 fun _ _ => rfl
  exact tidy.regroup regroups all (Nat.le_refl _) (by rw [none]; exact fun _ absurd => nomatch absurd)
    (by rw [none]; exact List.nodup_nil)

end Draft.Tidy

namespace Draft.Formed

/-- A pass over the tree that regroups its nodes keeps a draft well formed if what it gains is new
and what it retires is lost. -/
theorem regroup (formed : draft.Formed) (regroups : Node.Regroups fits f lost gained)
    (all : ∀ old ∈ draft.root.descendants, fits (old.rebuilt f))
    (regular : ∀ node ∈ (draft.root.mapUp f).descendants, node.Regular) {fresh : Nat}
    (grows : draft.fresh ≤ fresh)
    (new : ∀ id ∈ draft.root.descendants.flatMap fun old => gained (old.rebuilt f),
      draft.fresh ≤ id.index ∧ id.index < fresh)
    (apart : (draft.root.descendants.flatMap fun old => gained (old.rebuilt f)).Nodup)
    {dropped : List Retired} (parents : ParentLinks)
    (gone : ∀ entry ∈ dropped, ∀ node ∈ entry.node.descendants,
      node.id ∈ draft.root.descendants.flatMap fun old => lost (old.rebuilt f)) :
    Formed { draft with
      root := draft.root.mapUp f, parents, fresh, retired := draft.retired ++ dropped } := by
  have perm := regroups.ids_mapUp all
  obtain ⟨once, below⟩ := formed.toTidy.exchange regroups all grows new apart
  obtain ⟨-, -, disjoint⟩ := List.nodup_append'.1 once
  refine ⟨formed.toTidy.regroup regroups all grows new apart, fun entry listed node inside => ?_,
    regular, formed.unknown⟩
  rcases List.mem_append.1 listed with old | added
  · obtain ⟨known, absent⟩ := formed.retired entry old node inside
    refine ⟨Nat.lt_of_lt_of_le known grows, fun found => ?_⟩
    rcases List.mem_append.1 (perm.subset (List.mem_append_left _ found)) with here | later
    · exact absent here
    · exact Nat.not_lt.2 (new _ later).1 known
  · have missing := gone entry added node inside
    exact ⟨below _ (List.mem_append_right _ missing), fun found => disjoint found missing⟩

/-- A pass that adds no nodes keeps a draft well formed if what it retires is lost. -/
theorem regroupSame (formed : draft.Formed) (regroups : Node.Regroups fits f lost fun _ => [])
    (all : ∀ old ∈ draft.root.descendants, fits (old.rebuilt f))
    (regular : ∀ node ∈ (draft.root.mapUp f).descendants, node.Regular)
    {dropped : List Retired} {parents : ParentLinks}
    (gone : ∀ entry ∈ dropped, ∀ node ∈ entry.node.descendants,
      node.id ∈ draft.root.descendants.flatMap fun old => lost (old.rebuilt f)) :
    Formed { draft with
      root := draft.root.mapUp f, parents, retired := draft.retired ++ dropped } := by
  have none : (draft.root.descendants.flatMap fun _ => ([] : List NodeId)) = [] :=
    List.flatMap_eq_nil_iff.2 fun _ _ => rfl
  exact formed.regroup regroups all regular (Nat.le_refl _)
    (by rw [none]; exact fun _ absurd => nomatch absurd) (by rw [none]; exact List.nodup_nil) parents gone

end Draft.Formed

end Regroup

end ScriptMigration
