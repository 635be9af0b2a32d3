import ScriptMigration.Descriptor.Basic

/-! Searching the graph of includes. A depth-first walk is the list of its steps: entering a script
before what it includes, and leaving it after. -/
namespace ScriptMigration

/-- Scripts with the scripts that each of them includes. -/
structure IncludeGraph where
  edges : List (ScriptId × List ScriptId) := []

inductive WalkStep where
  | enter (script : ScriptId)
  | leave (script : ScriptId)
deriving DecidableEq, Repr

namespace WalkStep

def entered? : WalkStep → Option ScriptId
  | enter script => some script
  | leave _ => none

def left? : WalkStep → Option ScriptId
  | enter _ => none
  | leave script => some script

end WalkStep

namespace IncludeGraph

def scripts (graph : IncludeGraph) : List ScriptId := graph.edges.map (·.1)

def targets (graph : IncludeGraph) (script : ScriptId) : List ScriptId :=
  ((graph.edges.find? (·.1 == script)).map (·.2)).getD []

private theorem unentered_shrinks {scripts seen : List ScriptId} {script : ScriptId}
    (inside : script ∈ scripts) (unseen : script ∉ seen) :
    (scripts.filter (· ∉ script :: seen)).length < (scripts.filter (· ∉ seen)).length := by
  have split : (scripts.filter (· ∉ script :: seen)) =
      (scripts.filter (· ∉ seen)).filter (· ≠ script) := by
    rw [List.filter_filter]
    congr 1
    funext entry
    simp [List.mem_cons, not_or]
  rw [split]
  refine List.length_filter_lt_length_iff_exists.2 ⟨script, ?_, by simp⟩
  simp [inside, unseen]

/-- The steps of a depth-first walk that has the steps `todo` before it and has entered the scripts
in `seen`. From a script it goes on to `next` in order. -/
def walk (graph : IncludeGraph) (next : ScriptId → List ScriptId) (todo : List WalkStep)
    (seen : List ScriptId) : List WalkStep :=
  match todo with
  | [] => []
  | .leave script :: rest => .leave script :: graph.walk next rest seen
  | .enter script :: rest =>
    if inside : script ∈ graph.scripts ∧ script ∉ seen then
      have shrinks := unentered_shrinks inside.1 inside.2
      .enter script ::
        graph.walk next ((next script).map .enter ++ .leave script :: rest) (script :: seen)
    else graph.walk next rest seen
termination_by ((graph.scripts.filter (· ∉ seen)).length, todo.length)
decreasing_by
  · exact Prod.Lex.right _ (by simp)
  · exact Prod.Lex.left _ _ shrinks
  · exact Prod.Lex.right _ (by simp)

/-- The scripts that can be reached from a script, each when it is first met. The script itself
comes first. -/
def reach (graph : IncludeGraph) (script : ScriptId) : List ScriptId :=
  (graph.walk graph.targets [.enter script] []).filterMap WalkStep.entered?

/-- Everything that a script includes: its own includes, then what only they lead to. -/
def dependencies (graph : IncludeGraph) (script : ScriptId) : List ScriptId :=
  let direct := graph.targets script
  direct ++ (graph.reach script).filter fun other => other != script && !direct.contains other

/-- The scripts in the order in which a walk over the whole graph leaves them. It follows the
includes of a script from the last to the first. -/
def finished (graph : IncludeGraph) : List ScriptId :=
  let next (script : ScriptId) := (graph.targets script).reverse
  (graph.walk next (graph.scripts.map .enter) []).filterMap WalkStep.left?

def entwined (graph : IncludeGraph) (left right : ScriptId) : Bool :=
  (graph.reach left).contains right && (graph.reach right).contains left

def component (graph : IncludeGraph) (script : ScriptId) : List ScriptId :=
  graph.scripts.filter (graph.entwined script)

/-- Scripts in the order in which to work on them: what a script includes comes before it, and
scripts that include each other stand together where the last of them is finished. -/
def order (graph : IncludeGraph) : List ScriptId := go graph.finished
where
  go : List ScriptId → List ScriptId
    | [] => []
    | script :: later =>
      if later.any (graph.entwined script) then go later else graph.component script ++ go later

end IncludeGraph

end ScriptMigration
