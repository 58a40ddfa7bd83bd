import PayloadSchema.Path.Basic

/-!
Selecting values of a document. A path compiles to steps, each a child of those before it, and the first a child of the
root. Whoever looks for values knows the finder by its laws: a step leads from a value to some of the values inside it,
and the steps together lead from the whole document to what their last step leads to from each value found before it.
Of a step that does not fit a value the laws say no more than that a name leads to nothing where there are no members.
-/
namespace PayloadSchema

/-- A movement from a value to values inside it. -/
inductive Step where
  | field (name : Text)
  | index (i : Int)
  | each
deriving DecidableEq, Repr

def Step.ofSegment : Segment → Step
  | .field name => field name
  | .index i => index i
  | .each => each

/-- The steps of a path, one for each segment. -/
def Path.steps (path : Path) : List Step := path.segments.map Step.ofSegment

/-- What finds values in documents. -/
structure Finder where
  /-- The values that a step on its own leads to from a value. -/
  lead : Step → Json → List Json
  /-- The values of a document that steps from its root select. -/
  find : List Step → Json → List Json

/-- The laws of a finder. The field called `*` leads to all members of an object. -/
structure Finder.Lawful (F : Finder) : Prop where
  root (document : Json) : F.find [] document = [document]
  child (steps : List Step) (step : Step) (document : Json) :
    F.find (steps ++ [step]) document = (F.find steps document).flatMap (F.lead step)
  field {name : Text} (named : name ≠ "*") (v : Json) : F.lead (.field name) v = (v.get? name).toList
  star (members : List (Text × Json)) : F.lead (.field "*") (.obj members) = members.map Prod.snd
  each (items : List Json) : F.lead .each (.arr items) = items
  index (i : Nat) (items : List Json) : F.lead (.index i) (.arr items) = items[i]?.toList

namespace Step

/-- Every value directly inside a value. -/
def inside : Json → List Json
  | .arr items => items
  | .obj members => members.map Prod.snd
  | _ => []

/-- The values that a step leads to. The field called `*` leads to everything inside a value, and a negative
index counts from the end of the array. -/
def select (step : Step) (v : Json) : List Json :=
  match step with
  | each => inside v
  | field name => if name = "*" then inside v else (v.get? name).toList
  | index i =>
    match v with
    | .arr items =>
      if 0 ≤ i then items[i.toNat]?.toList
      else if i.natAbs ≤ items.length then items[items.length - i.natAbs]?.toList
      else []
    | _ => []

end Step

/-- The values of a document that steps select, in document order. -/
def selectAll (steps : List Step) (document : Json) : List Json :=
  steps.foldl (fun found step => found.flatMap step.select) [document]

/-- The finder that follows step after step. -/
def Finder.stepwise : Finder where
  lead := Step.select
  find := selectAll

theorem Finder.stepwise_lawful : stepwise.Lawful where
  root _ := rfl
  child steps step document := by
    simp only [stepwise, selectAll, List.foldl_append, List.foldl_cons, List.foldl_nil]
  field named v := if_neg named
  star _ := rfl
  each _ := rfl
  index i items := by simp only [stepwise, Step.select, Int.natCast_nonneg, if_true, Int.toNat_natCast]

end PayloadSchema
