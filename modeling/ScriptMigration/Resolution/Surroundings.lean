import ScriptMigration.Options
import ScriptMigration.Scope.Members
import ScriptMigration.Script.Store
import ScriptMigration.SymbolTable.Basic

/-! What stays as it is while a script is resolved: the symbol table, the options, the form of the
script, its own declarations and what can be seen of other scripts. -/
namespace ScriptMigration

/-- What can be seen of the tree of another script. -/
structure TreeView where
  nodes : Std.HashMap NodeId Node
  descriptors : Std.HashMap NodeId Descriptor

def Draft.view (draft : Draft) : TreeView := ⟨draft.nodesById, draft.notes.descriptors⟩

structure Surroundings where
  symbols : SymbolTable
  options : MigrationOptions
  script : ScriptId
  /-- How the script is called in messages. -/
  label : String
  /-- Whether every variable has to be declared. -/
  explicit : Bool
  form : Option HostForm
  /-- The nodes of the script itself. -/
  nodes : Std.HashMap NodeId Node
  types : Std.HashMap NodeId MemberScope
  dependencies : IncludedNames
  others : Std.HashMap ScriptId TreeView
  /-- The declarations whose types are written in the script, with these types. -/
  declared : Std.HashMap NodeId Descriptor := {}

namespace Surroundings

def ofScript (symbols : SymbolTable) (options : MigrationOptions) (store : ScriptStore)
    (id : ScriptId) (script : Script) (draft : Draft) : Surroundings where
  symbols := symbols
  options := options
  script := id
  label := script.key.render
  explicit := draft.explicit
  form := script.form
  nodes := draft.nodesById
  types := (ScopeIndex.ofTree draft.root).types
  dependencies := .ofScripts (script.dependencies.filterMap fun other =>
    if other == id then none else (store.draft? other).map fun draft => (other, draft.root))
  others := (store.ids.filter (· != id)).foldl (fun views other =>
    match store.draft? other with
    | some draft => views.insert other draft.view
    | none => views) {}

/-- The node of a declaration in any script that can be seen. -/
def node? (around : Surroundings) (decl : DeclRef) : Option Node :=
  if decl.script == around.script then around.nodes[decl.node]?
  else around.others[decl.script]?.bind (·.nodes[decl.node]?)

def sees (around : Surroundings) (script : ScriptId) : Bool :=
  script == around.script || around.others.contains script

/-- The declarations with a descriptor, given those of the script itself. -/
def described (around : Surroundings) (notes : Notes) : List DeclRef :=
  notes.descriptors.keys.map (DeclRef.mk around.script)
    ++ around.others.toList.flatMap fun (script, view) =>
      view.descriptors.keys.map (DeclRef.mk script)

def descriptorOf? (around : Surroundings) (notes : Notes) (decl : DeclRef) : Option Descriptor :=
  if decl.script == around.script then notes.descriptors[decl.node]?
  else around.others[decl.script]?.bind (·.descriptors[decl.node]?)

theorem mem_described {around : Surroundings} {notes : Notes} {decl : DeclRef}
    (known : (around.descriptorOf? notes decl).isSome) : decl ∈ around.described notes := by
  rcases decl with ⟨script, node⟩
  simp only [described, List.mem_append, List.mem_map, List.mem_flatMap]
  unfold descriptorOf? at known
  by_cases own : script = around.script
  · subst own
    simp only [beq_self_eq_true, if_true] at known
    exact .inl ⟨node, Std.HashMap.mem_keys.2 (Std.HashMap.isSome_getElem?_iff_mem.1 known), rfl⟩
  · have differs : (script == around.script) = false := by simp [own]
    simp only [differs] at known
    cases found : around.others[script]? with
    | none => simp [found] at known
    | some view =>
      simp only [found, Option.bind_some, Bool.false_eq_true, if_false] at known
      have listed := Std.HashMap.mem_toList_iff_getElem?_eq_some.2 found
      refine .inr ⟨(script, view), listed, node, ?_, rfl⟩
      exact Std.HashMap.mem_keys.2 (Std.HashMap.isSome_getElem?_iff_mem.1 known)

/-- What is known of declarations, given what is known of the script itself. -/
def lookup (around : Surroundings) (notes : Notes) : KnownDecls where
  find := around.descriptorOf? notes
  finite := ⟨around.described notes, fun _ known => mem_described known⟩

/-- What a node leads to, when deferred descriptors are followed. -/
def followed? (around : Surroundings) (notes : Notes) (id : NodeId) : Option Descriptor :=
  (notes.descriptor? id).bind (·.follow (around.lookup notes))

end Surroundings

end ScriptMigration
