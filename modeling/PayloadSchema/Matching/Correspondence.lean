import Std.Data.HashSet
import PayloadSchema.Assoc
import PayloadSchema.Text.CodePoint

/-!
Correspondences: which node of a matched subtree stands for each node of a pattern, by name. Two of them are the
same when they pair the same names, whatever the order of their entries.
-/
namespace PayloadSchema

/-- Pattern names with the names they are matched to, each pattern name once. -/
abbrev Correspondence := List (Text × Text)

namespace Correspondence

/-- The entries in the order of the pattern names. Correspondences that pair the same names have the same sorted
form. -/
def sorted (m : Correspondence) : Correspondence := m.mergeSort fun a b => a.1.precedes b.1

/-- Keeps the first of the maps with each sorted form, given the forms that came before. -/
def distinct (seen : Std.HashSet Correspondence) : List Correspondence → List Correspondence
  | [] => []
  | m :: rest =>
    let form := sorted m
    if seen.contains form then distinct seen rest else m :: distinct (seen.insert form) rest

/-- The largest of the maps, each once, in the order in which they first came. -/
def maximalUnique (maps : List Correspondence) : List Correspondence :=
  let largest := (maps.map List.length).max?.getD 0
  distinct ∅ (maps.filter fun m => largest ≤ m.length)

end Correspondence

end PayloadSchema
