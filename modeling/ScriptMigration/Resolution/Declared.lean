import ScriptMigration.Resolution.Lookup

/-! Declared types. A declaration that names its type has that type from the start and keeps it, and
so have types themselves, arrays, and procedures that give back nothing. -/
namespace ScriptMigration

def Descriptor.withRank (descriptor : Descriptor) (rank : Nat) : Descriptor :=
  match descriptor with
  | .type desc => if 0 < rank then .type (desc.withRank rank) else descriptor
  | _ => descriptor

namespace Surroundings

variable (around : Surroundings) (context : List NodeId)

def annotated? (typeName : Option String) (rank : Nat) : Option Descriptor :=
  match typeName with
  | some name => some ((around.typeNamed context name).withRank rank)
  | none => if rank == 0 then none else some (Descriptor.object.withRank rank)

/-- The type that a declaration inside the given types declares. -/
def declaredType? (node : Node) : Option Descriptor :=
  match node.shape with
  | .type decl => some (.ofScript ⟨around.script, node.id⟩ decl.name)
  | .field decl | .localVar decl =>
    around.annotated? context decl.typeName ((decl.array.map (·.rank)).getD 0)
  | .param decl =>
    around.annotated? context decl.typeName
      (if decl.marks.array || decl.marks.paramArray then 1 else 0)
  | .method decl =>
    if decl.kind.returnsValue then decl.returnType.map (around.typeNamed context)
    else some (.ofPrimitive .void)
  | _ => none

end Surroundings

/-- The declarations of a draft with the types around them. Retired ones count where they were
declared. -/
def Draft.declarations (draft : Draft) : List (Node × List NodeId) :=
  let places := draft.root.places
  let contextOf (owner : NodeId) : List NodeId :=
    match places.find? (·.node.id == owner) with
    | some place => owner :: place.types.map Node.id
    | none => []
  places.map (fun place => (place.node, place.types.map Node.id))
    ++ draft.retired.map fun entry => (entry.node, contextOf entry.owner)

def Surroundings.withDeclared (around : Surroundings) (draft : Draft) : Surroundings :=
  { around with
    declared := draft.declarations.foldl (fun declared (node, context) =>
      match around.declaredType? context node with
      | some type => declared.insert node.id type
      | none => declared) {} }

end ScriptMigration
