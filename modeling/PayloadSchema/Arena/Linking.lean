import PayloadSchema.Arena.Basic
import PayloadSchema.Descriptor.Rules

/-!
Linking descriptors by name. The names of parents and children become positions in the list, and what cannot be
resolved is reported. Names are compared exactly here.
-/
namespace PayloadSchema.Linking

/-- The positions of a name, in order. -/
def positions (names : List Text) (name : Text) : List Position :=
  (names.zipIdx.filter fun entry => entry.1 = name).map fun entry => (entry.2 : Position)

/-- The links of a descriptor among the given names: the last node with the parent's name, and the nodes with
the names of the children in the order in which these are listed. -/
def linksOf (names : List Text) (d : Descriptor) : Links where
  parent := if d.hasParent then (positions names d.parent).getLast? else none
  children := d.childNames.eraseDups.flatMap (positions names)

/-- What is wrong with the links of the descriptor at a position. -/
def problemsOf (position : Position) (d : Descriptor) (links : Links) : List Problem :=
  Problem.reportIf (links.parent.isNone && d.hasParent) (.unknownParent d.parent)
    ++ Problem.reportIf (links.parent = some position) (.ownParent d.name)
    ++ Problem.reportIf (links.children.length ≠ d.childNames.length) (.unknownChildren d.name)
    ++ Problem.reportIf (links.children.contains position) (.selfLink d.name)

/-- A descriptor that is linked has no known type. -/
structure Untyped where
  name : Text
deriving DecidableEq, Repr

/-- The node of the descriptor at a position. -/
def nodeOf (names : List Text) (position : Position) (d : Descriptor) : Except Untyped Node :=
  match d.kind? with
  | some kind => .ok { toLinks := linksOf names d, index := position, descriptor := d, kind := kind }
  | none => .error ⟨d.name⟩

/-- The nodes of some descriptors, in order. -/
def link (ds : List Descriptor) : Except Untyped (List Node) :=
  ds.zipIdx.mapM fun entry => nodeOf (ds.map (·.name)) entry.2 entry.1

/-- What is wrong with the links of some descriptors, in order. -/
def problems (ds : List Descriptor) : List Problem :=
  ds.zipIdx.flatMap fun entry => problemsOf entry.2 entry.1 (linksOf (ds.map (·.name)) entry.1)

end PayloadSchema.Linking
