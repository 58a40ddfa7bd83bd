import Mathlib.Logic.Function.Basic
import PayloadSchema.Arena.Binding

/-! Binding nodes where they are. Nodes are told apart by references, and binding writes the arena into one after the
other. All of them are looked at before the first is written to, so a list that is refused has changed nothing; and a
node that is bound keeps its arena, whatever else is bound after it. -/
namespace PayloadSchema.Arena

/-- Nodes by references to them, each with the references of its arena; an unbound node has none. -/
structure Store (ρ : Type) where
  node : ρ → Node
  arena : ρ → List ρ

namespace Store

variable {ρ : Type} [DecidableEq ρ]

/-- A node with the nodes of its arena. -/
def cell (s : Store ρ) (r : ρ) : Cell := ⟨s.node r, (s.arena r).map s.node⟩

/-- Writes an arena into one node. -/
def point (s : Store ρ) (arena : List ρ) (r : ρ) : Store ρ := { s with arena := Function.update s.arena r arena }

/-- Steps that change a store. Where they end early, what they have written so far stays. -/
abbrev Action (ρ α : Type) := EStateM BindError (Store ρ) α

/-- Looks at nodes that stand from a position on, up to the first that cannot be bound. -/
def inspect : (position : Nat) → List ρ → Action ρ Unit
  | _, [] => return
  | position, r :: rest => do
    match obstacle? position ((← get).cell r) with
    | some e => throw e
    | none => inspect (position + 1) rest

/-- Writes an arena into nodes one after the other. -/
def pointAll (arena : List ρ) : List ρ → Action ρ Unit
  | [] => return
  | r :: rest => do
    modify (·.point arena r)
    pointAll arena rest

/-- Binds nodes to the list of them. -/
def bind (refs : List ρ) : Action ρ (List ρ) := do
  inspect 0 refs
  -- No node has been written to yet, and from here on nothing fails.
  pointAll refs refs
  return refs

/-- The store after a list was given to be bound. -/
def next (s : Store ρ) (refs : List ρ) : Store ρ :=
  match (bind refs).run s with
  | .ok _ t | .error _ t => t

/-- The node at a place of a list cannot be bound. -/
inductive Offends (s : Store ρ) (refs : List ρ) (place : Nat) : BindError → Prop where
  | misplaced {r : ρ} (found : refs[place]? = some r) (away : (s.node r).index ≠ place) :
    Offends s refs place (.misplaced (s.node r).name (s.node r).index place)
  | bound {r : ρ} (found : refs[place]? = some r) (here : (s.node r).index = place) (held : s.arena r ≠ []) :
    Offends s refs place (.bound (s.node r).name)

/-- A list is refused for its first offender, and nothing has changed. -/
structure Refused (s : Store ρ) (refs : List ρ) (e : BindError) : Prop where
  first : ∃ place, s.Offends refs place e ∧ ∀ i < place, ∀ e, ¬ s.Offends refs i e
  answer : (bind refs).run s = .error e s

variable {s t : Store ρ} {refs : List ρ} {r : ρ} {e : BindError}

/-! ### One run -/

end Store
end PayloadSchema.Arena
