import ScriptMigration.Proofs.Descriptor.Follow
import ScriptMigration.Proofs.Script.Store
import ScriptMigration.Proofs.Syntax.Settings
import ScriptMigration.Resolution.Declared

/-! What the scripts of a batch declare, as far as other nodes may refer to it, and the script types that
descriptors name. A descriptor that is made of others names no type that none of them names. -/
namespace ScriptMigration

namespace BaseType

def script? : BaseType → Option DeclRef
  | script decl _ => some decl
  | _ => none

end BaseType

namespace Descriptor

def scriptType? : Descriptor → Option DeclRef
  | .type desc => desc.base.script?
  | _ => none

def Foreign (descriptor : Descriptor) : Prop :=
  descriptor.isDeferred = false ∧ descriptor.scriptType? = none

def Names (isType : DeclRef → Prop) (descriptor : Descriptor) : Prop :=
  ∀ decl ∈ descriptor.scriptType?, isType decl

variable {isType : DeclRef → Prop} {left right descriptor : Descriptor} {lookup : KnownDecls}

theorem Names.mono {isType' : DeclRef → Prop} (names : descriptor.Names isType)
    (larger : ∀ decl, isType decl → isType' decl) : descriptor.Names isType' :=
  fun decl named => larger decl (names decl named)

theorem names_of_none (none : descriptor.scriptType? = none) : descriptor.Names isType := by
  intro decl named
  rw [none] at named
  exact nomatch named

theorem Foreign.names (foreign : descriptor.Foreign) : descriptor.Names isType :=
  names_of_none foreign.2

theorem names_object : object.Names isType := names_of_none rfl

theorem names_ofScript {decl : DeclRef} (name : String) (known : isType decl) :
    (ofScript decl name).Names isType := fun _ named => Option.some.inj named ▸ known

theorem names_getD {found : Option Descriptor}
    (names : ∀ descriptor ∈ found, descriptor.Names isType) : (found.getD .object).Names isType := by
  cases found with
  | none => exact names_object
  | some descriptor => exact names descriptor rfl

theorem Names.element (names : descriptor.Names isType) : descriptor.element.Names isType := by
  unfold Descriptor.element
  split
  · split
    · exact names
    · exact names_object
  · exact names_object

theorem Names.withRank (names : descriptor.Names isType) (rank : Nat) :
    (descriptor.withRank rank).Names isType := by
  unfold Descriptor.withRank
  split
  · split
    · exact names
    · exact names
  · exact names

theorem Names.orNull {desc : DataType} (names : (type desc).Names isType) :
    (type (orNull desc)).Names isType := by
  unfold Descriptor.orNull
  split
  · exact names
  · exact names

theorem Names.joinTypes {first second : DataType} (names : (type first).Names isType) :
    (type (joinTypes first second)).Names isType := by
  unfold Descriptor.joinTypes
  split
  · exact names_object
  · intro decl named
    dsimp only [scriptType?] at named
    split at named
    · exact names decl named
    · split at named
      · split at named <;> exact nomatch named
      · exact nomatch named

theorem Names.join (first : left.Names isType) (second : right.Names isType) :
    (left.join right).Names isType := by
  unfold Descriptor.join
  split
  · exact first
  · split
    · exact second
    · exact first
    · exact second.orNull
    · exact first.orNull
    · exact first.joinTypes
    · exact names_object

theorem Leads.names {steps : Nat} {first last : Descriptor} (leads : Leads lookup steps first last)
    (names : first.Names isType)
    (known : ∀ decl descriptor, lookup.find decl = some descriptor → descriptor.Names isType) :
    last.Names isType := by
  induction leads with
  | here _ => exact names
  | next found _ ih => exact ih (known _ _ found)

theorem Names.follow {last : Descriptor} (names : descriptor.Names isType)
    (known : ∀ decl descriptor, lookup.find decl = some descriptor → descriptor.Names isType)
    (followed : descriptor.follow lookup = some last) : last.Names isType := by
  obtain ⟨_, leads⟩ := follow_eq_some_iff.1 followed
  exact leads.names names known

theorem Names.merge (first : left.Names isType) (second : right.Names isType)
    (known : ∀ decl descriptor, lookup.find decl = some descriptor → descriptor.Names isType) :
    (left.merge lookup right).Names isType := by
  unfold Descriptor.merge
  split
  · exact first
  · split
    · exact first
    · rename_i followed
      exact second.follow known followed
    · rename_i followed _
      exact first.follow known followed
    · rename_i followed followed'
      exact (first.follow known followed).join (second.follow known followed')

end Descriptor

/-- Nothing that a symbol table lists names a declaration of a script. -/
structure SymbolTable.Foreign (symbols : SymbolTable) : Prop where
  member : ∀ (print : Fingerprint) (member : SymbolMember),
    symbols.members[print]? = some member → member.result.Foreign
  constant : ∀ (print : Fingerprint) (constant : SymbolConstant),
    symbols.constants[print]? = some constant → constant.value.Foreign
  function : ∀ (print : Fingerprint) (function : SymbolFunction),
    symbols.functions[print]? = some function → function.result.Foreign
  formMember : ∀ (name : FoldedName) (symbol : FormSymbol),
    symbols.formMembers[name]? = some symbol → symbol.result.Foreign

/-- Nothing that a form offers names a declaration of a script. -/
def HostForm.Foreign (form : HostForm) : Prop :=
  ∀ name descriptor, form.find? name = some descriptor → descriptor.Foreign

/-- The types of a batch, and the members of these. -/
structure DeclKinds where
  isType : DeclRef → Prop
  isMember : DeclRef → Prop

structure DeclKinds.Le (kinds larger : DeclKinds) : Prop where
  type : ∀ decl, kinds.isType decl → larger.isType decl
  member : ∀ decl, kinds.isMember decl → larger.isMember decl

theorem DeclKinds.Le.refl (kinds : DeclKinds) : kinds.Le kinds := ⟨fun _ => id, fun _ => id⟩

theorem DeclKinds.Le.trans {first second third : DeclKinds} (left : first.Le second)
    (right : second.Le third) : first.Le third :=
  ⟨fun decl known => right.type decl (left.type decl known),
    fun decl known => right.member decl (left.member decl known)⟩

/-- What the tree of a script is known to declare stands there. -/
structure DeclKinds.Rooted (kinds : DeclKinds) (script : ScriptId) (root : Node) : Prop where
  type : ∀ {id : NodeId}, kinds.isType ⟨script, id⟩ → root.HasType id
  member : ∀ {id : NodeId}, kinds.isMember ⟨script, id⟩ → root.HasMember id

theorem DeclKinds.Rooted.carries {kinds : DeclKinds} {script : ScriptId} {old new : Node}
    {carried : Setting → Node → Node → Prop} {made : Setting → Node → Prop}
    (rooted : kinds.Rooted script old) (carries : Node.Carries carried made)
    (starts : carried .top old new) (nested : old.Nested) : kinds.Rooted script new :=
  ⟨fun known => carries.hasType starts nested (rooted.type known),
    fun known => carries.hasMember starts nested (rooted.member known)⟩

/-- A name of a script stands for a declaration of the right kind; `declares` tells which variables
and parameters a procedure has, and the name stands in the procedure `method`. -/
def Binding.Fits (kinds : DeclKinds) (script : ScriptId)
    (declares : Shape.Family → NodeId → NodeId → Prop) (method : Option NodeId) : Binding → Prop
  | .returnValue decl => method = some decl
  | .localVar decl => ∃ owner ∈ method, declares .localVar decl owner
  | .param decl => ∃ owner ∈ method, declares .param decl owner
  | .member decl | .outer decl => decl.script = script ∧ kinds.isMember decl
  | .dependency decl => decl.script ≠ script ∧ (kinds.isType decl ∨ kinds.isMember decl)
  | _ => True

theorem Binding.Fits.mono {kinds larger : DeclKinds} {script : ScriptId}
    {declares declares' : Shape.Family → NodeId → NodeId → Prop} {method : Option NodeId}
    {binding : Binding} (fits : binding.Fits kinds script declares method) (grows : kinds.Le larger)
    (kept : ∀ family id owner, family ≠ .expression → declares family id owner →
      declares' family id owner) : binding.Fits larger script declares' method := by
  cases binding with
  | localVar decl | param decl =>
    obtain ⟨owner, inMethod, declared⟩ := fits
    exact ⟨owner, inMethod, kept _ _ _ nofun declared⟩
  | member decl | outer decl => exact ⟨fits.1, grows.member decl fits.2⟩
  | dependency decl => exact ⟨fits.1, fits.2.imp (grows.type decl) (grows.member decl)⟩
  | _ => exact fits

def ScriptStore.kinds (store : ScriptStore) : DeclKinds where
  isType decl := ∃ draft, store.draft? decl.script = some draft ∧ draft.root.HasType decl.node
  isMember decl := ∃ draft, store.draft? decl.script = some draft ∧ draft.root.HasMember decl.node

end ScriptMigration
