import PayloadSchema.Text.CodePoint

/-!
Arguments that may be left out by a caller but not for the work to be done.
-/
namespace PayloadSchema

/-- An argument that some operation cannot do without. -/
inductive Argument where
  | descriptors | tree | pattern | path | name
deriving DecidableEq, Repr

namespace Argument

def label : Argument → Text
  | descriptors => "descriptors"
  | tree => "tree"
  | pattern => "pattern_root"
  | path => "path"
  | name => "name"

/-- What is said when the argument is left out. -/
def absence (a : Argument) : Text := a.label ++ " must not be None"

/-- The argument, or itself as what is missing. -/
def require {α : Type} (a : Argument) : Option α → Except Argument α
  | some x => .ok x
  | none => .error a

end Argument

end PayloadSchema
