import PayloadSchema.Container
import PayloadSchema.Tree.Build

/-!
A cache of trees by the descriptors they were built from. It keeps them in a container with room for so many trees,
and it builds those that are not there. Looking whether a tree is there asks for nothing. Descriptors that make no
tree leave the cache as it was. Usually the container is a shelf: when it is full, the tree whose descriptors were
asked for least recently makes room.
-/
namespace PayloadSchema

/-- A tree with the number of its building, by which two buildings of one tree are told apart. -/
structure Stored where
  tree : SchemaTree
  serial : Nat
deriving DecidableEq, Repr

/-- A cache that keeps its trees in some container. -/
structure Cache (K : Container (List Descriptor) Stored) where
  limits : Limits := {}
  trees : K.State
  /-- The number of trees built so far. -/
  built : Nat := 0

abbrev TreeCache := Cache (Shelf.container (List Descriptor) Stored)

namespace TreeCache

/-- Why the cache has no tree to give. -/
inductive Refusal where
  | absent (a : Argument)
  | rejected (problems : List Problem)
  /-- There is no room for even one tree. -/
  | noRoom
  | defect (e : Defect)
deriving DecidableEq, Repr

/-- The room that a cache has if nothing is said of it. -/
def usualCapacity : Amount := .whole 128

end TreeCache

namespace Cache

open TreeCache

variable {K : Container (List Descriptor) Stored}

/-- An empty cache with room for so many trees, if there is a container with that room. -/
def of (K : Container (List Descriptor) Stored) (capacity : Amount) (limits : Limits) : Option (Cache K) :=
  (K.fresh capacity).map fun trees => { limits, trees }

def capacity (c : Cache K) : Nat := K.room c.trees

/-- The number of trees in the cache. -/
def size (c : Cache K) : Nat := K.size c.trees

/-- Whether the tree of some descriptors is there. -/
def contains (c : Cache K) (key : List Descriptor) : Bool := K.has c.trees key

/-- The tree of some descriptors, built if it is not there, and the cache afterwards. -/
def get (c : Cache K) (key : List Descriptor) : Except Refusal Stored × Cache K :=
  match K.read c.trees key with
  | (some s, trees) => (.ok s, { c with trees })
  | (none, trees) =>
    let c := { c with trees }
    match SchemaTree.build c.limits key with
    | .error e => (.error (.defect e), c)
    | .ok (.rejected problems) => (.error (.rejected problems), c)
    | .ok (.built tree) =>
      let s : Stored := ⟨tree, c.built⟩
      let c := { c with built := c.built + 1 }
      match K.write c.trees key s with
      | none => (.error .noRoom, c)
      | some trees => (.ok s, { c with trees })

/-- The tree of descriptors that may have been left out. -/
def request (c : Cache K) (key : Option (List Descriptor)) : Except Refusal Stored × Cache K :=
  match Argument.require .descriptors key with
  | .ok key => c.get key
  | .error a => (.error (.absent a), c)

/-- Drops every tree. -/
def clear (c : Cache K) : Cache K := { c with trees := K.clear c.trees }

end Cache

/-- An empty cache that keeps its trees on a shelf. -/
def TreeCache.of (capacity : Amount) (limits : Limits) : Option TreeCache :=
  Cache.of (Shelf.container (List Descriptor) Stored) capacity limits

end PayloadSchema
