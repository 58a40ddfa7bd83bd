import PayloadSchema.Arena.Binding
import PayloadSchema.Arena.Linking
import PayloadSchema.Arena.Placement
import PayloadSchema.Report
import PayloadSchema.Required
import PayloadSchema.Tree.Basic

/-!
Building trees. Descriptors are looked at, linked, walked and measured, and each stage that finds problems ends
the building with all of them. The steps in between have no answer on some inputs; those are defects of the
building itself, and the stages before keep them from occurring. Problems are written down as they are found, and one
that cannot be written ends the building without an outcome.
-/
namespace PayloadSchema

/-- A step of the building had nothing to work on, or a problem was not to be written. -/
inductive Defect where
  | untyped (e : Linking.Untyped)
  | noRoot
  | outOfRange (e : OutOfRange)
  | place (e : Place.Fault)
  | binding (e : BindError)
  | unwritable (p : Problem)
deriving DecidableEq, Repr

/-- What building comes to. -/
inductive Outcome where
  | built (tree : SchemaTree)
  | rejected (problems : List Problem)
deriving DecidableEq, Repr

namespace Outcome

def tree? : Outcome → Option SchemaTree
  | built tree => some tree
  | rejected _ => none

def problems : Outcome → List Problem
  | built _ => []
  | rejected problems => problems

def report (o : Outcome) : Report := .ofProblems o.problems

/-- The stage that found the problems. -/
def stage? (o : Outcome) : Option Stage := o.problems.head?.map (·.stage)

/-- The outcome with its problems written down. -/
def written (o : Outcome) : Except Defect Outcome :=
  match o.problems.find? (!·.isWritable) with
  | some p => .error (.unwritable p)
  | none => .ok o

theorem written_of_writable {o : Outcome} (writable : ∀ p ∈ o.problems, p.isWritable) : o.written = .ok o := by
  have found : o.problems.find? (!·.isWritable) = none := List.find?_eq_none.mpr fun p listed => by
    simp [writable p listed]
  rw [written, found]

/-- Where a problem cannot be written, one that cannot be is to blame. -/
theorem written_of_long {o : Outcome} {p : Problem} (listed : p ∈ o.problems) (long : p.isWritable = false) :
    ∃ q ∈ o.problems, q.isWritable = false ∧ o.written = .error (.unwritable q) := by
  cases found : o.problems.find? (!·.isWritable) with
  | none => exact absurd long (by simpa using List.find?_eq_none.mp found p listed)
  | some q => exact ⟨q, List.mem_of_find?_eq_some found, by simpa using List.find?_some found, by rw [written, found]⟩

end Outcome

namespace SchemaTree

/-- The problems of a walk over so many nodes. -/
def walkProblems (size : Nat) (w : Walk) : List Problem :=
  Problem.reportIf w.cyclic .cyclic ++ Problem.reportIf (w.visitedCount ≠ size) .unreached

/-- The problem of a tree with too many levels. -/
def depthProblems (limits : Limits) (nodes : List Node) : List Problem :=
  let depth := ((nodes.filter (·.isLeaf)).map (·.depth)).max?.getD 0
  Problem.reportIf (limits.maxDepth < depth) (.tooDeep limits.givenDepth)

/-- The paths of placed nodes with their types, in the order of a walk. -/
def indexOf (nodes : List Node) (places : List (Position × Place)) : PathIndex :=
  .ofPaths (places.filterMap fun entry => (Arena.nodeAt? nodes entry.1).map fun n => (entry.2.path, n.kind))

/-- Binds placed nodes and makes them a tree. -/
def assemble (limits : Limits) (normal : List Descriptor) (root : Position) (paths : PathIndex)
    (placed : List Node) : Except Defect SchemaTree :=
  match Arena.bind (placed.map fun n => ⟨n, []⟩) with
  | (some e, _) => .error (.binding e)
  | (none, cells) => do
    let nodes := cells.map Cell.node
    let root ← (Arena.nodeAt nodes root).mapError .outOfRange
    return { nodes := nodes, root := root, paths := paths, descriptors := normal, limits := limits }

/-- Walks over linked nodes, places and measures them. -/
def grow (limits : Limits) (normal : List Descriptor) (nodes : List Node) : Except Defect Outcome := do
  match nodes.findIdx? (·.isRoot) with
  | none => .error .noRoot
  | some root =>
    let (order, w) ← (Walk.whole (nodes.map (·.toLinks)) root).mapError .outOfRange
    let places ← (Place.all nodes order).mapError .place
    match walkProblems nodes.length w with
    | p :: rest => return .rejected (p :: rest)
    | [] =>
      let placed ← (Place.fill nodes places).mapError .place
      match depthProblems limits placed with
      | p :: rest => return .rejected (p :: rest)
      | [] => return .built (← assemble limits normal root (indexOf nodes places) placed)

/-- Makes a tree of descriptors, or finds the problems that keep them from being one. -/
def examine (limits : Limits) (ds : List Descriptor) : Except Defect Outcome :=
  match Descriptor.validate limits ds with
  | (_, p :: rest) => .ok (.rejected (p :: rest))
  | (normal, []) =>
    match Linking.problems normal with
    | p :: rest => .ok (.rejected (p :: rest))
    | [] => do
      let nodes ← (Linking.link normal).mapError .untyped
      grow limits normal nodes

/-- Builds a tree from descriptors, or writes down the problems that keep them from being one. -/
def build (limits : Limits) (ds : List Descriptor) : Except Defect Outcome := do
  (← examine limits ds).written

theorem build_of_examined {limits : Limits} {ds : List Descriptor} {o : Outcome} (ran : examine limits ds = .ok o) :
    build limits ds = o.written := by
  rw [build, ran]
  rfl

theorem build_built {limits : Limits} {ds : List Descriptor} {t : SchemaTree}
    (ran : examine limits ds = .ok (.built t)) : build limits ds = .ok (.built t) :=
  build_of_examined ran

end SchemaTree

end PayloadSchema
