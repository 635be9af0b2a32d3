import ScriptMigration.Descriptor.Basic
import ScriptMigration.Draft.Basic
import ScriptMigration.Grammar.Fault
import ScriptMigration.Script.Key
import Std.Data.HashMap

/-! The scripts of a batch, and the forms that they belong to. A script is known by its number, which is
its place in the store, and found by its key. -/
namespace ScriptMigration

structure HostForm where
  /-- The name by which the script refers to the form. -/
  name : String
  /-- The controls of the form. -/
  fields : Std.HashMap FoldedName Descriptor := {}
  /-- What this form offers beside what every form offers. -/
  members : Std.HashMap FoldedName Descriptor := {}

namespace HostForm

def withField (form : HostForm) (name : String) (type : Descriptor) : HostForm :=
  { form with fields := form.fields.insert (.of name) type }

def withMember (form : HostForm) (name : String) (type : Descriptor) : HostForm :=
  { form with members := form.members.insert (.of name) type }

def field? (form : HostForm) (name : String) : Option Descriptor := form.fields[FoldedName.of name]?

def member? (form : HostForm) (name : String) : Option Descriptor :=
  form.members[FoldedName.of name]?

def find? (form : HostForm) (name : String) : Option Descriptor :=
  (form.field? name).or (form.member? name)

end HostForm

/-- What a script belongs to in its host. -/
inductive Plugin where
  | script
  | form
  | other (code : Nat)
deriving DecidableEq, Repr, Inhabited

/-- What has become of the text of a script. -/
inductive Reading where
  | unread
  | read (draft : Draft)
  | faulty (faults : List SyntaxFault)

structure Script where
  key : ScriptKey
  plugin : Plugin
  text : String
  reading : Reading := .unread
  /-- The scripts that it includes, directly or through others. -/
  dependencies : List ScriptId := []
  form : Option HostForm := none

namespace Script

def draft? (script : Script) : Option Draft :=
  match script.reading with
  | .read draft => some draft
  | _ => none

def faults? (script : Script) : Option (List SyntaxFault) :=
  match script.reading with
  | .faulty faults => some faults
  | _ => none

def isValid (script : Script) : Bool := script.faults?.isNone

end Script

structure ScriptStore where
  scripts : List Script := []

namespace ScriptStore

def size (store : ScriptStore) : Nat := store.scripts.length

def ids (store : ScriptStore) : List ScriptId := (List.range store.size).map ScriptId.mk

def get? (store : ScriptStore) (id : ScriptId) : Option Script := store.scripts[id.index]?

def find? (store : ScriptStore) (key : ScriptKey) : Option ScriptId :=
  (store.scripts.findIdx? (·.key.lookup == key.lookup)).map ScriptId.mk

def add (store : ScriptStore) (key : ScriptKey) (plugin : Plugin) (text : String) :
    ScriptId × ScriptStore :=
  match store.find? key with
  | some id => (id, store)
  | none => (⟨store.size⟩, { scripts := store.scripts ++ [{ key, plugin, text }] })

def modify (store : ScriptStore) (id : ScriptId) (f : Script → Script) : ScriptStore :=
  { scripts := store.scripts.modify id.index f }

def draft? (store : ScriptStore) (id : ScriptId) : Option Draft :=
  (store.get? id).bind Script.draft?

def setReading (store : ScriptStore) (id : ScriptId) (reading : Reading) : ScriptStore :=
  store.modify id fun script => { script with reading }

def setDraft (store : ScriptStore) (id : ScriptId) (draft : Draft) : ScriptStore :=
  store.setReading id (.read draft)

/-- The text of a script's key, or of its number where there is no such script. -/
def label (store : ScriptStore) (id : ScriptId) : String :=
  match store.get? id with
  | some script => script.key.render
  | none => id.render

def descriptor? (store : ScriptStore) (decl : DeclRef) : Option Descriptor :=
  (store.draft? decl.script).bind (·.notes.descriptor? decl.node)

end ScriptStore

end ScriptMigration
