import ScriptMigration.Resolution.Typing

/-! The members that were looked up lately. What a cache gives is what the symbol table says, so it
makes no difference to the type of an expression which cache is at hand. -/
namespace ScriptMigration

/-- A cache holds nothing but what the symbol table says. -/
def MemberMemo.Faithful (cache : MemberMemo) (symbols : SymbolTable) : Prop :=
  ∀ (owner : Fingerprint) (name : String) (entry : Stamped (Option SymbolMember)),
    cache.entries[(owner, FoldedName.of name)]? = some entry →
      entry.value = symbols.member? owner name

namespace MemberMemo

variable {cache : MemberMemo} {symbols : SymbolTable} {owner : Fingerprint} {name : String}

theorem member?_of_folded {name' : String} (same : FoldedName.of name = FoldedName.of name') :
    symbols.member? owner name = symbols.member? owner name' := by
  have print : Fingerprint.ofMember owner name = Fingerprint.ofMember owner name' :=
    congrArg (fun key : FoldedName => Fingerprint.mk
      ((Fingerprint.memberDomain ^^^ owner.word) * Fingerprint.memberFactor +
        Digest.ofText key.text)) same
  rw [SymbolTable.member?, SymbolTable.member?, print]

theorem withCapacity_faithful (capacity : Nat) :
    Faithful (.withCapacity capacity) symbols := by
  intro owner name entry found
  simp [RecentCache.withCapacity] at found

theorem Faithful.put (faithful : cache.Faithful symbols) :
    Faithful (RecentCache.put cache (owner, FoldedName.of name) (symbols.member? owner name))
      symbols := by
  have evicted : Faithful (RecentCache.evict cache) symbols := by
    unfold RecentCache.evict
    split
    · intro owner' name' entry found
      rw [Std.HashMap.getElem?_erase] at found
      split at found
      · simp at found
      · exact faithful owner' name' entry found
    · exact faithful
  intro owner' name' entry found
  simp only [RecentCache.put, Std.HashMap.getElem?_insert] at found
  split at found
  · rename_i same
    obtain rfl := Option.some.inj found
    obtain ⟨rfl, folded⟩ := Prod.mk.inj (eq_of_beq same)
    exact member?_of_folded folded
  · split at found
    · exact evicted owner' name' entry found
    · exact faithful owner' name' entry found

theorem Faithful.getOrInsert (faithful : cache.Faithful symbols) (owner : Fingerprint)
    (name : String) :
    (RecentCache.getOrInsert cache (owner, FoldedName.of name)
        fun _ => symbols.member? owner name).1 = symbols.member? owner name ∧
      Faithful (RecentCache.getOrInsert cache (owner, FoldedName.of name)
        fun _ => symbols.member? owner name).2.2 symbols := by
  unfold RecentCache.getOrInsert RecentCache.get
  dsimp only
  have table : cache.tick.entries = cache.entries := rfl
  rw [table]
  cases known : cache.entries[(owner, FoldedName.of name)]? with
  | none =>
    refine ⟨rfl, ?_⟩
    have counted : Faithful (RecentCache.tick { cache.tick with misses := cache.misses + 1 }) symbols :=
      faithful
    exact counted.put
  | some entry =>
    have held := faithful owner name entry known
    refine ⟨held, ?_⟩
    intro owner' name' entry' found
    simp only [Std.HashMap.getElem?_insert] at found
    split at found
    · rename_i same
      obtain rfl := Option.some.inj found
      obtain ⟨rfl, folded⟩ := Prod.mk.inj (eq_of_beq same)
      exact held.trans (member?_of_folded folded)
    · exact faithful owner' name' entry' found

end MemberMemo

namespace Surroundings

variable {around : Surroundings} {cache cache' : MemberMemo}

theorem memberTyped_faithful (final : Bool) (target : Option Descriptor) (name : String)
    (faithful : cache.Faithful around.symbols) :
    (around.memberTyped final cache target name).2.Faithful around.symbols := by
  unfold memberTyped
  split
  · exact faithful
  · rename_i type _
    have looked := (faithful.getOrInsert type.print name).2
    dsimp only
    split <;> exact looked
  · split <;> exact faithful
  · split <;> exact faithful
  · exact faithful

theorem typed_faithful (final : Bool) (notes : Notes) (bodies : Std.HashMap NodeId LocalScope)
    (place : Place) (faithful : cache.Faithful around.symbols) :
    (around.typed final notes bodies cache place).2.Faithful around.symbols := by
  unfold typed
  dsimp only
  cases place.node.shape with
  | assignedValue =>
    dsimp only
    split <;> exact faithful
  | member object name =>
    dsimp only
    split
    · exact faithful
    · exact memberTyped_faithful final _ _ faithful
  | _ => exact faithful

theorem memberTyped_congr (final : Bool) (target : Option Descriptor) (name : String)
    (faithful : cache.Faithful around.symbols) (faithful' : cache'.Faithful around.symbols) :
    (around.memberTyped final cache target name).1 =
      (around.memberTyped final cache' target name).1 := by
  unfold memberTyped
  split
  · rfl
  · rename_i type _
    have looked := (faithful.getOrInsert type.print name).1
    have looked' := (faithful'.getOrInsert type.print name).1
    dsimp only
    rw [looked, looked']
    split <;> rfl
  · split <;> rfl
  · split <;> rfl
  · rfl

end Surroundings

end ScriptMigration
