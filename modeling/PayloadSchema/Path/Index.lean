import PayloadSchema.NodeType
import PayloadSchema.Path.Selection

/-!
The index of a schema's paths: for each path text the steps that select its values and the type found there.
-/
namespace PayloadSchema

/-- What the index holds for one path. -/
structure PathEntry where
  steps : List Step
  kind : NodeType
deriving DecidableEq, Repr

/-- Entries by path text, in the order in which the texts first came. -/
structure PathIndex where
  entries : List (Text × PathEntry) := []
deriving DecidableEq, Repr

namespace PathIndex

/-- Enters a path under its text. -/
def enter (paths : PathIndex) (path : Path) (kind : NodeType) : PathIndex :=
  ⟨Assoc.put paths.entries path.text ⟨path.steps, kind⟩⟩

/-- The index of some paths with their types. -/
def ofPaths (paths : List (Path × NodeType)) : PathIndex :=
  paths.foldl (fun done entry => done.enter entry.1 entry.2) {}

def size (paths : PathIndex) : Nat := paths.entries.length

def keys (paths : PathIndex) : List Text := paths.entries.map Prod.fst

def lookup (paths : PathIndex) (text : Text) : Option PathEntry := Assoc.get? paths.entries text

/-- An index as messages show it. -/
def literal (paths : PathIndex) : Text := "PathIndex(" ++ toString paths.size ++ " paths)"

end PathIndex

end PayloadSchema
