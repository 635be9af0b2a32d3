import ScriptMigration.Proofs.Draft.Kinds
import ScriptMigration.Proofs.Draft.Prepared

/-! Drafts whose notes refer to what the scripts of a batch declare. -/
namespace ScriptMigration

/-- No type that is noted has to be looked up, and the script types are those of scripts. -/
def Notes.Settled (notes : Notes) (kinds : DeclKinds) : Prop :=
  ∀ id descriptor, notes.descriptor? id = some descriptor →
    descriptor.isDeferred = false ∧ descriptor.Names kinds.isType

theorem Notes.Settled.describe {notes : Notes} {kinds : DeclKinds} {descriptor : Descriptor}
    (settled : notes.Settled kinds) (id : NodeId) (known : descriptor.isDeferred = false)
    (names : descriptor.Names kinds.isType) : (notes.describe id descriptor).Settled kinds := by
  intro other found noted
  rw [Notes.descriptor?, Notes.describe, Std.HashMap.getElem?_insert] at noted
  split at noted
  · exact Option.some.inj noted ▸ ⟨known, names⟩
  · exact settled other found noted

theorem Notes.Settled.bind {notes : Notes} {kinds : DeclKinds} (settled : notes.Settled kinds)
    (id : NodeId) (binding : Binding) : (notes.bind id binding).Settled kinds := settled

/-- The names in a tree stand for declarations of the right kind. -/
structure Node.Refers (root : Node) (notes : Notes) (kinds : DeclKinds) (script : ScriptId) :
    Prop where
  nested : root.Nested
  fits : ∀ {setting : Setting} {node : Node} {binding : Binding}, root.Stands setting node →
    notes.binding? node.id = some binding →
      binding.Fits kinds script root.Declares setting.method
  expression : ∀ {setting : Setting} {node : Node} {binding : Binding}, root.Stands setting node →
    notes.binding? node.id = some binding → node.shape.family = .expression

namespace Node.Refers

variable {root : Node} {notes : Notes} {kinds : DeclKinds} {script : ScriptId}

theorem mono (refers : root.Refers notes kinds script) {larger : DeclKinds}
    (grows : kinds.Le larger) : root.Refers notes larger script :=
  { refers with
    fits := fun stands noted =>
      (refers.fits stands noted).mono grows fun _ _ _ _ known => known }

theorem congr (refers : root.Refers notes kinds script) {notes' : Notes}
    (same : ∀ id, notes'.binding? id = notes.binding? id) : root.Refers notes' kinds script :=
  { refers with
    fits := fun stands noted => refers.fits stands ((same _).symm.trans noted)
    expression := fun stands noted => refers.expression stands ((same _).symm.trans noted) }

/-- A tree whose nodes were carried over keeps what its names stand for if none is bound that was
made. -/
theorem carries (refers : root.Refers notes kinds script) {new : Node}
    {carried : Setting → Node → Node → Prop} {made : Setting → Node → Prop}
    (carries : Carries carried made) (starts : carried .top root new)
    (held : ∀ {setting node}, made setting node →
      ∀ family ∈ setting.parent, family.holds node.shape.family)
    (unbound : ∀ {setting node}, made setting node → notes.binding? node.id = none) :
    new.Refers notes kinds script := by
  refine ⟨carries.nested starts refers.nested held, ?_, ?_⟩
  · intro setting node binding stands noted
    rcases carries.origin starts stands with ⟨source, above, isCarried⟩ | isMade
    · rw [carries.id isCarried] at noted
      exact (refers.fits above noted).mono (.refl kinds)
        fun _ _ _ differs known => carries.declares starts refers.nested differs known
    · rw [unbound isMade] at noted
      exact nomatch noted
  · intro setting node binding stands noted
    rcases carries.origin starts stands with ⟨source, above, isCarried⟩ | isMade
    · rw [carries.id isCarried] at noted
      exact (carries.family isCarried).trans (refers.expression above noted)
    · rw [unbound isMade] at noted
      exact nomatch noted

theorem mapUp (refers : root.Refers notes kinds script) {f : Node → Node}
    {leaves : Node → List Node} (alters : Alters f leaves)
    (fitting : ∀ node : Node, ∀ leaf ∈ leaves node, node.shape.family.holds leaf.shape.family)
    (unbound : ∀ old ∈ root.descendants, ∀ leaf ∈ leaves (old.rebuilt f),
      notes.binding? leaf.id = none) : (root.mapUp f).Refers notes kinds script := by
  refine refers.carries (alters.carries root) (Alters.carried_root f root) ?_ ?_
  · rintro setting leaf ⟨outer, old, _, made, rfl⟩ family isParent
    obtain rfl := Option.some.inj isParent
    have held := fitting _ leaf made
    rwa [family_rebuilt] at held
  · rintro setting leaf ⟨outer, old, stands, made, _⟩
    exact unbound old stands.mem leaf made

end Node.Refers

theorem DeclKinds.Rooted.mapUp {kinds : DeclKinds} {script : ScriptId} {root : Node}
    (rooted : kinds.Rooted script root) (nested : root.Nested) {f : Node → Node}
    {leaves : Node → List Node} (alters : Node.Alters f leaves) :
    kinds.Rooted script (root.mapUp f) :=
  rooted.carries (alters.carries root) (Node.Alters.carried_root f root) nested

/-- What is noted of the nodes of a draft refers to what the scripts of a batch declare, and to what
the procedures of the draft declare. -/
structure Draft.Refers (draft : Draft) (kinds : DeclKinds) (script : ScriptId) : Prop
    extends draft.Tidy where
  tree : draft.root.Refers draft.notes kinds script
  settled : draft.notes.Settled kinds
  bound : ∀ {id : NodeId} {binding : Binding}, draft.notes.binding? id = some binding →
    id.index < draft.fresh

theorem Draft.Refers.mono {draft : Draft} {kinds larger : DeclKinds} {script : ScriptId}
    (refers : draft.Refers kinds script) (grows : kinds.Le larger) : draft.Refers larger script :=
  { refers with
    tree := refers.tree.mono grows
    settled := fun id descriptor noted =>
      ⟨(refers.settled id descriptor noted).1, (refers.settled id descriptor noted).2.mono grows.type⟩ }

namespace ScriptStore

variable {store : ScriptStore} {id : ScriptId} {draft old : Draft}

theorem rooted_kinds (found : store.draft? id = some draft) : store.kinds.Rooted id draft.root := by
  constructor <;>
  · rintro node ⟨other, isOther, known⟩
    rw [found] at isOther
    exact Option.some.inj isOther ▸ known

theorem kinds_le_setDraft (found : store.draft? id = some old)
    (rooted : store.kinds.Rooted id draft.root) :
    store.kinds.Le (store.setDraft id draft).kinds := by
  obtain ⟨script, listed, _⟩ := exists_script found
  have own : (store.setDraft id draft).draft? id = some draft := draft?_setDraft listed
  constructor
  · rintro ⟨other, node⟩ known
    by_cases isOwn : other = id
    · subst isOwn
      exact ⟨draft, own, rooted.type known⟩
    · obtain ⟨other', isOther, stands⟩ := known
      exact ⟨other', (draft?_setDraft_of_ne isOwn).trans isOther, stands⟩
  · rintro ⟨other, node⟩ known
    by_cases isOwn : other = id
    · subst isOwn
      exact ⟨draft, own, rooted.member known⟩
    · obtain ⟨other', isOther, stands⟩ := known
      exact ⟨other', (draft?_setDraft_of_ne isOwn).trans isOther, stands⟩

/-- The scripts of a batch while they are resolved: each is prepared, or what is noted of it refers to
what the batch declares. -/
def Referring (store : ScriptStore) : Prop :=
  ∀ {id : ScriptId} {draft : Draft}, store.draft? id = some draft →
    draft.Prepared ∨ draft.Refers store.kinds id ∧ draft.Layered

namespace Referring

variable (referring : store.Referring)

include referring

theorem layered (found : store.draft? id = some draft) : draft.Layered := by
  rcases referring found with prepared | ⟨_, layered⟩
  · exact prepared.layered
  · exact layered

theorem names (found : store.draft? id = some draft) {node : NodeId} {descriptor : Descriptor}
    (noted : draft.notes.descriptor? node = some descriptor) :
    descriptor.Names store.kinds.isType := by
  rcases referring found with prepared | ⟨refers, _⟩
  · rw [prepared.formed.unknown] at noted
    simp [Notes.descriptor?] at noted
  · exact (refers.settled node descriptor noted).2

/-- A script that was resolved takes the place of the prepared one. -/
theorem setDraft (found : store.draft? id = some old) (refers : draft.Refers store.kinds id)
    (layered : draft.Layered) (rooted : store.kinds.Rooted id draft.root) :
    (store.setDraft id draft).Referring := by
  obtain ⟨script, listed, _⟩ := exists_script found
  have grows := kinds_le_setDraft found rooted
  intro other draft' isOther
  by_cases isOwn : other = id
  · subst isOwn
    rw [draft?_setDraft listed] at isOther
    obtain rfl := Option.some.inj isOther
    exact .inr ⟨refers.mono grows, layered⟩
  · rw [draft?_setDraft_of_ne isOwn] at isOther
    exact (referring isOther).imp_right fun known => ⟨known.1.mono grows, known.2⟩

end Referring

end ScriptStore

end ScriptMigration
