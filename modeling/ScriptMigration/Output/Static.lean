import ScriptMigration.Script.Store

/-! Static scripts. The root type of a script needs no object when it has no fields other than
constants and everything that the script depends on needs none either. -/
namespace ScriptMigration

def Draft.isStateless (draft : Draft) : Bool :=
  draft.root.typeDecl?.any fun decl =>
    decl.members.all fun member =>
      match member.shape with
      | .field entry => entry.marks.const
      | _ => true

def Draft.markStatic (draft : Draft) (static : Bool) : Draft :=
  match draft.root.shape with
  | .type decl =>
    { draft with
      root := draft.root.withShape (.type { decl with marks := { decl.marks with static } }) }
  | _ => draft

namespace ScriptStore

def closedPart (store : ScriptStore) (scripts : List ScriptId) : List ScriptId :=
  scripts.filter fun id =>
    (store.get? id).all fun script => script.dependencies.all scripts.contains

/-- The greatest part of a list of scripts that depends only on itself. -/
def settled (store : ScriptStore) (scripts : List ScriptId) : List ScriptId :=
  if (store.closedPart scripts).length < scripts.length then
    store.settled (store.closedPart scripts)
  else scripts
termination_by scripts.length

def statics (store : ScriptStore) : List ScriptId :=
  store.settled (store.ids.filter fun id => (store.draft? id).any Draft.isStateless)

def markStatics (store : ScriptStore) : ScriptStore × List ScriptId :=
  let statics := store.statics
  (store.ids.foldl (fun store id =>
    match store.draft? id with
    | some draft => store.setDraft id (draft.markStatic (statics.contains id))
    | none => store) store, statics)

end ScriptStore

end ScriptMigration
