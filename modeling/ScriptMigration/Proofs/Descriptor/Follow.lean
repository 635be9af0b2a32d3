import Mathlib.Data.List.Perm.Subperm
import Mathlib.Data.List.ProdSigma
import ScriptMigration.Descriptor.Merge

/-! Where a chain of deferred descriptors leads. `Leads` says it by the steps of the chain, without
the list of declarations that were passed, and `Descriptor.follow` computes it.

`Descriptor.chain` is what a lookup makes of a descriptor step after step, whether it ends or not, and
`Descriptor.Follows` is the loop that keeps what it passed: it counts its turns, and passes no
declaration twice. The loop always ends, at the end of the chain where the chain has one. -/
namespace ScriptMigration

theorem KnownDecls.exists_of_bounded (find : DeclRef → Option Descriptor) (scripts nodes : Nat)
    (bounded : ∀ decl, (find decl).isSome → decl.script.index < scripts ∧ decl.node.index < nodes) :
    ∃ lookup : KnownDecls, lookup.find = find := by
  refine ⟨⟨find, (List.range scripts ×ˢ List.range nodes).map fun pair => ⟨⟨pair.1⟩, ⟨pair.2⟩⟩,
    fun decl known => ?_⟩, rfl⟩
  obtain ⟨script, node⟩ := bounded decl known
  exact List.mem_map.2 ⟨(decl.script.index, decl.node.index),
    List.mem_product.2 ⟨List.mem_range.2 script, List.mem_range.2 node⟩, rfl⟩

namespace Descriptor

/-- A chain of the given number of deferred descriptors ends at a descriptor that is not deferred. -/
inductive Leads (lookup : KnownDecls) : Nat → Descriptor → Descriptor → Prop
  | here {descriptor} (known : descriptor.isDeferred = false) : Leads lookup 0 descriptor descriptor
  | next {steps decl next last} (found : lookup.find decl = some next)
      (rest : Leads lookup steps next last) : Leads lookup (steps + 1) (.deferred decl) last

variable {lookup : KnownDecls}

namespace Leads

theorem known {steps : Nat} {first last : Descriptor} (leads : Leads lookup steps first last) :
    last.isDeferred = false := by
  induction leads with
  | here known => exact known
  | next _ _ ih => exact ih

theorem unique {steps steps' : Nat} {first last last' : Descriptor}
    (leads : Leads lookup steps first last) (leads' : Leads lookup steps' first last') :
    steps = steps' ∧ last = last' := by
  induction leads generalizing steps' with
  | here known =>
    cases leads' with
    | here => exact ⟨rfl, rfl⟩
    | next => simp [isDeferred] at known
  | next found _ ih =>
    cases leads' with
    | here known => simp [isDeferred] at known
    | next found' rest' =>
      obtain rfl := Option.some.inj (found.symm.trans found')
      obtain ⟨rfl, rfl⟩ := ih rest'
      exact ⟨rfl, rfl⟩

end Leads

theorem followFrom_of_known {seen : List DeclRef} {descriptor : Descriptor}
    (known : descriptor.isDeferred = false) :
    followFrom lookup seen descriptor = some descriptor := by
  rw [followFrom.eq_def]
  cases descriptor <;> simp_all [isDeferred]

theorem followFrom_deferred {seen : List DeclRef} {decl : DeclRef} {next : Descriptor}
    (fresh : decl ∉ seen) (found : lookup.find decl = some next) :
    followFrom lookup seen (.deferred decl) = followFrom lookup (decl :: seen) next := by
  rw [followFrom.eq_def]
  simp only [fresh, dite_false]
  split
  · rename_i absent
    rw [found] at absent
    exact absurd absent (by simp)
  · rename_i next' found'
    obtain rfl := Option.some.inj (found.symm.trans found')
    rfl

theorem leads_of_followFrom {seen : List DeclRef} {first last : Descriptor}
    (followed : followFrom lookup seen first = some last) : ∃ steps, Leads lookup steps first last := by
  fun_induction followFrom lookup seen first with
  | case1 => simp at followed
  | case2 => simp at followed
  | case3 seen decl _ next found _ ih =>
    obtain ⟨steps, leads⟩ := ih followed
    exact ⟨steps + 1, .next found leads⟩
  | case4 seen other notDeferred =>
    obtain rfl := Option.some.inj followed
    refine ⟨0, .here ?_⟩
    cases other <;> simp_all [isDeferred]

theorem followFrom_of_leads {seen : List DeclRef} {steps : Nat} {first last : Descriptor}
    (leads : Leads lookup steps first last)
    (longer : ∀ decl ∈ seen, ∀ steps' last', Leads lookup steps' (.deferred decl) last' → steps < steps') :
    followFrom lookup seen first = some last := by
  induction leads generalizing seen with
  | here known => exact followFrom_of_known known
  | next found rest ih =>
    rename_i steps decl next last
    have whole : Leads lookup (steps + 1) (.deferred decl) last := .next found rest
    have fresh : decl ∉ seen := fun passed => absurd (longer decl passed _ _ whole) (by omega)
    rw [followFrom_deferred fresh found]
    refine ih fun decl' passed steps' last' leads' => ?_
    rcases List.mem_cons.1 passed with rfl | before
    · have same := (whole.unique leads').1
      omega
    · have more := longer decl' before _ _ leads'
      omega

theorem follow_eq_some_iff {first last : Descriptor} :
    first.follow lookup = some last ↔ ∃ steps, Leads lookup steps first last := by
  constructor
  · exact leads_of_followFrom
  · rintro ⟨steps, leads⟩
    exact followFrom_of_leads leads (by simp)

theorem follow_of_known {descriptor : Descriptor} (known : descriptor.isDeferred = false) :
    descriptor.follow lookup = some descriptor := followFrom_of_known known

theorem isDeferred_of_follow {first last : Descriptor} (followed : first.follow lookup = some last) :
    last.isDeferred = false := by
  obtain ⟨_, leads⟩ := follow_eq_some_iff.1 followed
  exact leads.known

section Chain

def next? (lookup : KnownDecls) : Descriptor → Option Descriptor
  | .deferred decl => lookup.find decl
  | _ => none

/-- The descriptor so many steps along the chain, as long as the chain goes on. -/
def chain (lookup : KnownDecls) : Nat → Descriptor → Option Descriptor
  | 0, first => some first
  | steps + 1, first => (first.next? lookup).bind (chain lookup steps)

/-- The loop that follows a descriptor ends with this outcome after so many turns. The declarations
in `seen` were passed before. -/
inductive Follows (lookup : KnownDecls) : Nat → List DeclRef → Descriptor → Option Descriptor → Prop
  | known {seen descriptor} (known : descriptor.isDeferred = false) :
    Follows lookup 1 seen descriptor (some descriptor)
  | again {seen decl} (passed : decl ∈ seen) : Follows lookup 1 seen (.deferred decl) none
  | missing {seen decl} (fresh : decl ∉ seen) (absent : lookup.find decl = none) :
    Follows lookup 1 seen (.deferred decl) none
  | next {turns seen decl next outcome} (fresh : decl ∉ seen) (found : lookup.find decl = some next)
      (rest : Follows lookup turns (decl :: seen) next outcome) :
    Follows lookup (turns + 1) seen (.deferred decl) outcome

variable {seen : List DeclRef} {first last : Descriptor} {decl : DeclRef}

@[simp]
theorem next?_deferred : (Descriptor.deferred decl).next? lookup = lookup.find decl := rfl

theorem next?_of_known (known : first.isDeferred = false) : first.next? lookup = none := by
  cases first with
  | deferred decl => cases known
  | _ => rfl

theorem chain_succ (steps : Nat) :
    chain lookup (steps + 1) first = (first.next? lookup).bind (chain lookup steps) := rfl

theorem Leads.drop {steps turns : Nat} {middle : Descriptor} (leads : Leads lookup steps first last)
    (reached : chain lookup turns first = some middle) :
    ∃ rest, steps = turns + rest ∧ Leads lookup rest middle last := by
  induction turns generalizing steps first with
  | zero =>
    obtain rfl := Option.some.inj reached
    exact ⟨steps, (Nat.zero_add steps).symm, leads⟩
  | succ turns ih =>
    obtain ⟨next, isNext, later⟩ := Option.bind_eq_some_iff.1 reached
    cases leads with
    | here known =>
      rw [next?_of_known known] at isNext
      cases isNext
    | next found rest =>
      obtain rfl := Option.some.inj (found.symm.trans isNext)
      obtain ⟨remaining, rfl, leads⟩ := ih rest later
      exact ⟨remaining, Nat.add_right_comm turns remaining 1, leads⟩

theorem leads_iff_chain {steps : Nat} : Leads lookup steps first last ↔
    last.isDeferred = false ∧ chain lookup steps first = some last := by
  constructor
  · intro leads
    refine ⟨leads.known, ?_⟩
    induction leads with
    | here => rfl
    | next found _ ih => rw [chain_succ, next?_deferred, found, Option.bind_some, ih]
  · rintro ⟨known, reached⟩
    induction steps generalizing first with
    | zero =>
      obtain rfl := Option.some.inj reached
      exact .here known
    | succ steps ih =>
      obtain ⟨next, isNext, later⟩ := Option.bind_eq_some_iff.1 reached
      cases first with
      | deferred decl => exact .next isNext (ih later)
      | _ => cases isNext

def Breaks (lookup : KnownDecls) (first : Descriptor) : Prop :=
  ∃ steps decl, chain lookup steps first = some (.deferred decl) ∧ lookup.find decl = none

def Returns (lookup : KnownDecls) (first : Descriptor) : Prop :=
  ∃ early late decl, early < late ∧ chain lookup early first = some (.deferred decl) ∧
    chain lookup late first = some (.deferred decl)

theorem Leads.not_breaks {steps : Nat} (leads : Leads lookup steps first last) :
    ¬ Breaks lookup first := by
  rintro ⟨turns, decl, reached, absent⟩
  obtain ⟨rest, -, leads⟩ := leads.drop reached
  cases leads with
  | here known => cases known
  | next found _ =>
    rw [absent] at found
    cases found

theorem Leads.not_returns {steps : Nat} (leads : Leads lookup steps first last) :
    ¬ Returns lookup first := by
  rintro ⟨early, late, decl, before, reached, again⟩
  obtain ⟨rest, whole, leadsEarly⟩ := leads.drop reached
  obtain ⟨rest', whole', leadsLate⟩ := leads.drop again
  -- the same declaration cannot be two distances from the end
  have same := (leadsEarly.unique leadsLate).1
  omega

theorem chain_of_next {next : Descriptor} (found : lookup.find decl = some next) (steps : Nat) :
    chain lookup (steps + 1) (.deferred decl) = chain lookup steps next := by
  rw [chain_succ, next?_deferred, found, Option.bind_some]

theorem breaks_or_returns_of_followFrom (nothing : followFrom lookup seen first = none) :
    Breaks lookup first ∨ Returns lookup first ∨
      ∃ steps, ∃ decl ∈ seen, chain lookup steps first = some (.deferred decl) := by
  fun_induction followFrom lookup seen first with
  | case1 seen decl passed => exact .inr (.inr ⟨0, decl, passed, rfl⟩)
  | case2 seen decl _ absent => exact .inl ⟨0, decl, rfl, absent⟩
  | case3 seen decl _ next found _ ih =>
    rcases ih nothing with ⟨steps, other, reached, absent⟩ |
      ⟨early, late, other, before, reached, again⟩ | ⟨steps, other, passed, reached⟩
    · exact .inl ⟨steps + 1, other, (chain_of_next found steps).trans reached, absent⟩
    · exact .inr (.inl ⟨early + 1, late + 1, other, Nat.succ_lt_succ before,
        (chain_of_next found early).trans reached, (chain_of_next found late).trans again⟩)
    · have later := (chain_of_next found steps).trans reached
      rcases List.mem_cons.1 passed with rfl | passed
      · exact .inr (.inl ⟨0, steps + 1, other, Nat.succ_pos steps, rfl, later⟩)
      · exact .inr (.inr ⟨steps + 1, other, passed, later⟩)
  | case4 => cases nothing

theorem follow_eq_none_iff : first.follow lookup = none ↔ Breaks lookup first ∨ Returns lookup first := by
  constructor
  · intro nothing
    rcases breaks_or_returns_of_followFrom nothing with breaks | returns | ⟨_, _, absurd, _⟩
    · exact .inl breaks
    · exact .inr returns
    · cases absurd
  · intro stuck
    refine Option.eq_none_iff_forall_ne_some.2 fun last followed => ?_
    obtain ⟨steps, leads⟩ := follow_eq_some_iff.1 followed
    exact stuck.elim leads.not_breaks leads.not_returns

/-- The loop has one outcome, after one number of turns. -/
theorem Follows.unique {turns turns' : Nat} {outcome outcome' : Option Descriptor}
    (follows : Follows lookup turns seen first outcome)
    (follows' : Follows lookup turns' seen first outcome') : turns = turns' ∧ outcome = outcome' := by
  induction follows generalizing turns' with
  | known isKnown =>
    cases follows' with
    | known => exact ⟨rfl, rfl⟩
    | again => cases isKnown
    | missing => cases isKnown
    | next => cases isKnown
  | again passed =>
    cases follows' with
    | known isKnown => cases isKnown
    | again => exact ⟨rfl, rfl⟩
    | missing => exact ⟨rfl, rfl⟩
    | next fresh => exact absurd passed fresh
  | missing fresh absent =>
    cases follows' with
    | known isKnown => cases isKnown
    | again => exact ⟨rfl, rfl⟩
    | missing => exact ⟨rfl, rfl⟩
    | next _ found =>
      rw [absent] at found
      cases found
  | next fresh found _ ih =>
    cases follows' with
    | known isKnown => cases isKnown
    | again passed => exact absurd passed fresh
    | missing _ absent =>
      rw [absent] at found
      cases found
    | next _ found' rest =>
      obtain rfl := Option.some.inj (found.symm.trans found')
      obtain ⟨rfl, rfl⟩ := ih rest
      exact ⟨rfl, rfl⟩

theorem followFrom_follows {declared : List DeclRef} (first : Descriptor)
    (covers : ∀ decl, (lookup.find decl).isSome → decl ∈ declared) (once : seen.Nodup)
    (among : seen ⊆ declared) :
    ∃ turns, turns + seen.length ≤ declared.length + 1 ∧
      Follows lookup turns seen first (followFrom lookup seen first) := by
  have last : 1 + seen.length ≤ declared.length + 1 := by
    have fits := (List.subperm_of_subset once among).length_le
    omega
  fun_induction followFrom lookup seen first with
  | case1 seen decl passed => exact ⟨1, last, .again passed⟩
  | case2 seen decl fresh absent => exact ⟨1, last, .missing fresh absent⟩
  | case3 seen decl fresh next found _ ih =>
    have inside : decl ∈ declared := covers decl (by rw [found]; rfl)
    have once' : (decl :: seen).Nodup := List.nodup_cons.2 ⟨fresh, once⟩
    have among' : decl :: seen ⊆ declared := List.cons_subset.2 ⟨inside, among⟩
    have fits := (List.subperm_of_subset once' among').length_le
    obtain ⟨turns, bound, rest⟩ := ih once' among' (by omega)
    rw [List.length_cons] at bound
    exact ⟨turns + 1, by omega, .next fresh found rest⟩
  | case4 seen other notDeferred =>
    refine ⟨1, last, .known ?_⟩
    cases other with
    | deferred decl => exact absurd rfl (notDeferred decl)
    | _ => rfl

/-- Following a descriptor ends, after at most one turn more than there are declarations that have a
descriptor. It gives what the chain leads to, and nothing where the chain breaks or returns. -/
theorem follow_chain (lookup : KnownDecls) (first : Descriptor) :
    (∀ declared : List DeclRef, (∀ decl, (lookup.find decl).isSome → decl ∈ declared) →
      ∃ turns ≤ declared.length + 1, Follows lookup turns [] first (first.follow lookup)) ∧
    (∀ last, first.follow lookup = some last ↔
      last.isDeferred = false ∧ ∃ steps, chain lookup steps first = some last) ∧
    (first.follow lookup = none ↔ Breaks lookup first ∨ Returns lookup first) := by
  refine ⟨fun declared covers => ?_, fun last => ?_, follow_eq_none_iff⟩
  · obtain ⟨turns, bound, follows⟩ :=
      followFrom_follows first covers List.nodup_nil (List.nil_subset declared)
    exact ⟨turns, bound, follows⟩
  · rw [follow_eq_some_iff]
    simp only [leads_iff_chain, exists_and_left]

end Chain

end Descriptor

end ScriptMigration
