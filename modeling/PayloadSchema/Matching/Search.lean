import Std.Data.HashMap
import PayloadSchema.Matching.Arrangement
import PayloadSchema.Matching.Assignment
import PayloadSchema.Matching.Correspondence
import PayloadSchema.Tree.Basic

/-!
Searching a tree for the subtrees that look like a pattern. Two branches match when their types agree and their
children can be paired off so that every pair matches, whatever their order. For each match the search lists the
correspondences of names, one for every way to pair the children at every level. Pairs of nodes that were
compared are remembered, and children are only arranged when their types agree and a pairing is possible, as an
assigner tells.
-/
namespace PayloadSchema

/-- The correspondences of two branches, their roots left out; nothing if they do not match. -/
abbrev Maps := Option (List Correspondence)

namespace Matching

/-- The answers so far, by the positions of candidate and pattern. -/
abbrev Memo := Std.HashMap (Int × Int) Maps

/-- The ranks of the types of some branches, in order. -/
def childRanks (bs : List Branch) : List Nat := (bs.map fun b => b.kind.rank).mergeSort

/-- Whether two branches may match by their types and the types of their children. -/
def mayMatch (candidate pattern : Branch) : Bool :=
  candidate.kind = pattern.kind
    && candidate.children.length = pattern.children.length
    && childRanks candidate.children = childRanks pattern.children

/-- Which pairs of children match. -/
def maskOf (size : Nat) (pairs : List (List Maps)) : Mask where
  rows := size
  columns := size
  allows := fun i j => ((pairs[i]?.bind (·[j]?)).getD none).isSome

/-- Every way to pick one element of each list, the last list running fastest. -/
def choices {α : Type} : List (List α) → List (List α)
  | [] => [[]]
  | xs :: rest => xs.flatMap fun x => (choices rest).map (x :: ·)

/-- The entries for the children themselves, given which pattern child each candidate child is paired with. -/
def levelMap (candidates patterns : List Branch) (arrangement : List Nat) : Correspondence :=
  Assoc.ofPairs ((candidates.zip arrangement).filterMap fun entry =>
    (patterns[entry.2]?).map fun p => (p.name, entry.1.name))

/-- The correspondences of one arrangement: the entries of the children, with every choice of the
correspondences below them. -/
def mapsOf (candidates patterns : List Branch) (pairs : List (List Maps)) (arrangement : List Nat) :
    List Correspondence :=
  let level := levelMap candidates patterns arrangement
  let deeper := (pairs.zip arrangement).map fun entry => ((entry.1[entry.2]?).getD none).getD []
  (choices deeper).map fun choice => choice.foldl Assoc.update level

variable (assigner : Assigner)

/-- The correspondences of two branches whose types agree, given those of every pair of children. -/
def combine (candidate pattern : Branch) (pairs : List (List Maps)) : Maps :=
  let size := pattern.children.length
  let mask := maskOf size pairs
  if mask.isAssignable assigner then
    match ({ size := size, mask := some mask } : Arrangements).toList.flatMap
      (mapsOf candidate.children pattern.children pairs) with
    | [] => none
    | found => some found
  else none

mutual

/-- The answer for a candidate and a pattern, remembered or worked out. -/
def matchPair : Branch → Branch → StateM Memo Maps
  | .mk node children, pattern => do
    let key := (node.index, pattern.node.index)
    match (← get)[key]? with
    | some maps => return maps
    | none =>
      let maps ←
        if !mayMatch (.mk node children) pattern then pure none
        else if pattern.children.isEmpty then pure (some [[]])
        else do
          let pairs ← matchPairs pattern.children children
          pure (combine assigner (.mk node children) pattern pairs)
      modify (·.insert key maps)
      return maps
termination_by structural candidate => candidate

/-- The answers for every candidate and every pattern. -/
def matchPairs (patterns : List Branch) : List Branch → StateM Memo (List (List Maps))
  | [] => return []
  | candidate :: rest => do
    let row ← patterns.mapM fun pattern => matchPair candidate pattern
    return row :: (← matchPairs patterns rest)
termination_by structural candidates => candidates

end

/-- Puts the entry of the roots in front of a correspondence. -/
def rooted (candidate pattern : Branch) (m : Correspondence) : Correspondence :=
  Assoc.update [(pattern.name, candidate.name)] m

/-- A subtree that looks like the pattern. -/
structure Match where
  node : Node
  maps : List Correspondence
deriving DecidableEq, Repr

/-- The matches among some candidates, in their order. -/
def findAmong (pattern : Branch) : List Branch → StateM Memo (List Match)
  | [] => return []
  | candidate :: rest => do
    let maps ← matchPair assigner candidate pattern
    let more ← findAmong pattern rest
    match maps with
    | none => return more
    | some maps =>
      return ⟨candidate.node, Correspondence.maximalUnique (maps.map (rooted candidate pattern))⟩ :: more

end Matching

/-- A search through one tree. Every search starts from an empty memory; what it remembered stays behind. -/
structure Matcher where
  tree : SchemaTree
  memo : Matching.Memo := ∅

namespace Matcher

/-- The branches of a tree that have the type of the pattern, each before those below it. -/
def candidates (t : SchemaTree) (pattern : Branch) : List Branch :=
  (t.preorder.filter fun n => n.kind = pattern.kind).map t.branch

/-- The subtrees that look like the pattern, and the matcher afterwards. -/
def find (m : Matcher) (assigner : Assigner) (pattern : Branch) : List Matching.Match × Matcher :=
  let (found, memo) := (Matching.findAmong assigner pattern (candidates m.tree pattern)).run ∅
  (found, { m with memo := memo })

end Matcher

/-- The subtrees of a tree that look like the pattern. -/
def SchemaTree.findSubtree (t : SchemaTree) (assigner : Assigner) (pattern : Branch) : List Matching.Match :=
  ((Matcher.mk t ∅).find assigner pattern).1

end PayloadSchema
