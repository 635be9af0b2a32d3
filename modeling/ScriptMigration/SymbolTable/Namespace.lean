import ScriptMigration.Text.Blank
import ScriptMigration.Text.Name

/-! Namespaces and the types they declare. Namespaces are compared part by part without regard to
ASCII letter case; each is listed once, after the namespaces around it, in the spelling it was first
given. -/
namespace ScriptMigration

def namespaceParts (space : String) : List String :=
  (Text.splitAt '.' space).filter (!·.isEmpty)

structure Namespace where
  parts : List String
  /-- The types that the namespace declares itself. -/
  types : List FoldedName := []
deriving Repr

namespace Namespace

def key (space : Namespace) : List FoldedName := space.parts.map FoldedName.of

def path (space : Namespace) : String := ".".intercalate space.parts

end Namespace

structure NamespaceTable where
  /-- The namespaces in the order in which they were made; the first is the global one. -/
  entries : List Namespace := [{ parts := [] }]

namespace NamespaceTable

def number? (table : NamespaceTable) (parts : List String) : Option Nat :=
  table.entries.findIdx? (·.key == parts.map FoldedName.of)

def get? (table : NamespaceTable) (parts : List String) : Option Namespace :=
  table.entries.find? (·.key == parts.map FoldedName.of)

/-- Makes the namespace with the given parts, and first those around it, where they are missing. A
new one is spelled like the namespace around it with its own part added. -/
def insert (table : NamespaceTable) (parts : List String) : NamespaceTable :=
  go table [] parts
where
  go (table : NamespaceTable) (around : List String) : List String → NamespaceTable
    | [] => table
    | part :: rest =>
      match table.get? (around ++ [part]) with
      | some found => go table found.parts rest
      | none =>
        go { entries := table.entries ++ [{ parts := around ++ [part] }] } (around ++ [part]) rest

def addType (table : NamespaceTable) (parts : List String) (name : String) : NamespaceTable :=
  let table := table.insert parts
  { entries := table.entries.map fun space =>
      if space.key == parts.map FoldedName.of && !space.types.contains (.of name) then
        { space with types := space.types ++ [.of name] }
      else space }

def declares (table : NamespaceTable) (parts : List String) (name : String) : Bool :=
  (table.get? parts).any (·.types.contains (.of name))

def declaring (table : NamespaceTable) (name : String) : List String :=
  (table.entries.filter (·.types.contains (.of name))).map Namespace.path

end NamespaceTable

/-- A node of the graph that namespaces are kept in. -/
structure NamespaceNode where
  path : String := ""
  types : List FoldedName := []
deriving DecidableEq, Repr

structure NamespaceEdge where
  around : Nat
  part : String
  inner : Nat
deriving DecidableEq, Repr

/-- The graph that namespaces are kept in, which a `NamespaceTable` lists
(`NamespaceGraph.ofNotes_refines`). The first node is the global namespace, and the newest edge comes
first. -/
structure NamespaceGraph where
  nodes : List NamespaceNode := [{}]
  edges : List NamespaceEdge := []

namespace NamespaceGraph

def child? (graph : NamespaceGraph) (around : Nat) (part : String) : Option Nat :=
  (graph.edges.find? fun edge => edge.around == around && sameName edge.part part).map (·.inner)

def makeChild (graph : NamespaceGraph) (around : Nat) (part : String) : NamespaceGraph × Nat :=
  match graph.child? around part with
  | some inner => (graph, inner)
  | none =>
    let outer := ((graph.nodes[around]?).map (·.path)).getD ""
    let inner := graph.nodes.length
    ({ nodes := graph.nodes ++ [{ path := if outer.isEmpty then part else outer ++ "." ++ part }]
       edges := ⟨around, part, inner⟩ :: graph.edges }, inner)

def makePath (graph : NamespaceGraph) (space : String) : NamespaceGraph × Nat :=
  (namespaceParts space).foldl (fun (graph, around) part => graph.makeChild around part) (graph, 0)

def path? (graph : NamespaceGraph) (space : String) : Option Nat :=
  (namespaceParts space).foldlM graph.child? 0

def addType (graph : NamespaceGraph) (space name : String) : NamespaceGraph :=
  let (made, number) := graph.makePath space
  { made with nodes := made.nodes.modify number fun node =>
      if node.types.contains (.of name) then node else { node with types := node.types ++ [.of name] } }

def declares (graph : NamespaceGraph) (space name : String) : Bool :=
  ((graph.path? space).bind (graph.nodes[·]?)).any (·.types.contains (.of name))

def declaring (graph : NamespaceGraph) (name : String) : List String :=
  (graph.nodes.filter (·.types.contains (.of name))).map (·.path)

end NamespaceGraph

end ScriptMigration
