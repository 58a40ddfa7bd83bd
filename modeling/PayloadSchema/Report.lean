import PayloadSchema.Assoc
import PayloadSchema.Problem

/-!
Reports: what was found wrong, in the order of discovery, each failure under the field it belongs to. An empty
report means that nothing is wrong.
-/
namespace PayloadSchema

structure FieldError where
  field : Text
  message : Text
deriving DecidableEq, Repr

structure Report where
  errors : List FieldError := []
deriving DecidableEq, Repr

namespace Report

/-- The field of every problem with the structure of a schema. -/
def treeNodes : Text := "treeNodes"

def isOk (r : Report) : Bool := r.errors.isEmpty

def messages (r : Report) : List Text := r.errors.map (·.message)

/-- The report with one more failure at its end. -/
def add (r : Report) (message : Text) (field : Text := treeNodes) : Report :=
  ⟨r.errors ++ [⟨field, message⟩]⟩

/-- The failures of both reports, those of the first before those of the second. -/
def merge (r s : Report) : Report := ⟨r.errors ++ s.errors⟩

/-- The messages of each field, in order of discovery. -/
def byField (r : Report) : List (Text × List Text) :=
  r.errors.foldl (fun groups e => Assoc.put groups e.field ((Assoc.get? groups e.field).getD [] ++ [e.message])) []

/-- The report of some problems. -/
def ofProblems (problems : List Problem) : Report := ⟨problems.map fun p => ⟨treeNodes, p.message⟩⟩

/-- What a refusal starts with. -/
def refusalText : Text := "Could not create, because some fields are invalid."

/-- The text of a refusal: what it starts with, and the messages behind it. -/
def refusal (r : Report) (start : Text := refusalText) : Text :=
  let details := List.intercalate ("; " : Text) r.messages
  if details.isEmpty then start else start ++ " " ++ details

theorem isOk_ofProblems (problems : List Problem) : (ofProblems problems).isOk = problems.isEmpty := by
  cases problems <;> rfl

theorem messages_merge (r s : Report) : (r.merge s).messages = r.messages ++ s.messages := by
  simp [merge, messages]

end Report

end PayloadSchema
