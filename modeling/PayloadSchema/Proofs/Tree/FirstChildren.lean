import PayloadSchema.Matching.LeafPath
import PayloadSchema.Proofs.Matching.MapSets
import PayloadSchema.Proofs.Tree.Addresses

/-! The way down that always takes the first child. It ends at a leaf, it is the spine of the branch, and the arrays on
it are the array levels that the path of the leaf has more than the path of the node where the way begins. An
isomorphism takes it to a way down with as many array levels. -/
namespace PayloadSchema

/-- The number of array levels of a node's path; none until the node is placed. -/
def Node.wildcards (n : Node) : Nat := n.segments.countP (· = .each)

namespace SchemaTree
open Arena Branch

variable {t u : SchemaTree} {n m p c l x : Node} {f : Node → Node} {count total : Nat}

/-- The count of arrays with a node added to it. -/
def counted (count : Nat) (n : Node) : Nat := if n.kind = .array then count + 1 else count

/-- Going down from a node, to the first child at every step, until there is a leaf. The arrays are counted on the way,
from a count that is given; the first node and the leaf are counted with the others. -/
inductive Descends (nodes : List Node) : Node → Nat → Node → Nat → Prop where
  | leaf {n : Node} {count : Nat} (barren : n.isLeaf = true) : Descends nodes n count n (counted count n)
  | inner {n m l : Node} {rest : List Node} {count total : Nat} (parent : n.isLeaf = false)
      (children : n.childrenIn nodes = .ok (m :: rest)) (below : Descends nodes m (counted count n) l total) :
      Descends nodes n count l total

/-- There is one way down at most. -/
theorem descends_unique {nodes : List Node} {other : Node} {sum : Nat} (first : Descends nodes n count l total)
    (second : Descends nodes n count other sum) : l = other ∧ total = sum := by
  induction first with
  | leaf barren =>
    cases second with
    | leaf _ => exact ⟨rfl, rfl⟩
    | inner parent _ _ => simp [barren] at parent
  | inner parent children _ ih =>
    cases second with
    | leaf barren => simp [barren] at parent
    | inner _ same below =>
      obtain ⟨rfl, _⟩ := List.cons.inj (Except.ok.inj (children.symm.trans same))
      exact ih below

theorem descends_leaf {nodes : List Node} (descends : Descends nodes n count l total) : l.isLeaf := by
  induction descends with
  | leaf barren => exact barren
  | inner _ _ _ ih => exact ih

theorem descends_subtree (descends : Descends u.nodes n count l total) : l ∈ u.subtree n := by
  induction descends with
  | leaf _ => exact .refl
  | inner _ children _ ih => exact .head ⟨_, children, List.mem_cons_self⟩ ih

namespace Built

theorem isLeaf_iff (built : t.Built) (member : n ∈ t.nodes) : n.isLeaf ↔ childNodes t.nodes n = [] := by
  rw [Node.isLeaf, List.isEmpty_iff, ← built.shaped.childNodes_index member, List.map_eq_nil_iff]

theorem isLeaf_eq (built : t.Built) (member : n ∈ t.nodes) : n.isLeaf = n.kind.isPrimitive := by
  obtain ⟨_, _, _, _, _, _, grown⟩ := built.grown
  exact SchemaTree.leaf_primitive grown member

theorem counted_leaf (built : t.Built) (member : n ∈ t.nodes) (barren : n.isLeaf) : counted count n = count := by
  rw [built.isLeaf_eq member] at barren
  refine if_neg fun array => ?_
  simp [array, NodeType.isPrimitive] at barren

/-- The way down always ends. It passes the nodes of the spine. -/
theorem descends (built : t.Built) : ∀ n ∈ t.nodes, ∀ count, ∃ l, (t.branch n).spine.getLast? = some l ∧
    Descends t.nodes n count l (count + arrayCount (t.branch n).spine) := by
  refine built.upward fun n member below count => ?_
  have here : count + arrayCount [n] = counted count n := by
    by_cases array : n.kind = .array <;> simp [arrayCount, counted, array]
  rw [built.branch_eq member, spine]
  cases children : childNodes t.nodes n with
  | nil =>
    have barren := (built.isLeaf_iff member).mpr children
    refine ⟨n, rfl, ?_⟩
    rw [List.map_nil, spineOfFirst, here]
    exact .leaf barren
  | cons m rest =>
    obtain ⟨l, last, under⟩ := below m (children ▸ List.mem_cons_self) (counted count n)
    have parent : n.isLeaf = false := by
      rw [Bool.eq_false_iff]
      intro barren
      simp [(built.isLeaf_iff member).mp barren] at children
    have levels : count + arrayCount (n :: (t.branch m).spine) = counted count n + arrayCount (t.branch m).spine := by
      rw [← here, arrayCount, arrayCount, arrayCount, ← List.singleton_append, List.countP_append, Nat.add_assoc]
    refine ⟨l, ?_, ?_⟩
    · rw [List.map_cons, spineOfFirst, List.getLast?_cons, last]
      rfl
    · rw [List.map_cons, spineOfFirst, levels]
      exact .inner parent (children ▸ built.shaped.childrenIn_eq member) under

theorem wildcardCount_eq (built : t.Built) (member : n ∈ t.nodes) {path : Path} (placed : n.path = some path) :
    path.wildcardCount = n.wildcards := by
  rw [← Option.some.inj ((built.path_eq member).symm.trans placed)]
  rfl

/-- The path of a child has one array level more below an array, and as many elsewhere. -/
theorem wildcards_child (built : t.Built) (member : n ∈ t.nodes) (child : m ∈ t.childSet n) :
    m.wildcards = counted n.wildcards n := by
  have listed := (built.mem_childSet member).mp child
  rw [Node.wildcards, built.child_segments member listed, List.countP_append]
  by_cases array : n.kind = .array <;> simp [counted, Segment.below, array, Node.wildcards]

end Built

/-- An isomorphism takes the way down to nodes whose array levels grow as those on the way do. -/
theorem descends_carried (builtU : u.Built) (builtT : t.Built) (pMember : p ∈ u.nodes) (cMember : c ∈ t.nodes)
    (iso : Isomorphism u t p c f) (descends : Descends u.nodes n count l total) (inside : n ∈ u.subtree p) :
    (f l).wildcards + count = (f n).wildcards + total := by
  induction descends with
  | leaf barren => rw [builtU.counted_leaf (builtU.subtree_member pMember inside) barren]
  | @inner n m l rest count total _ children below ih =>
    have child : m ∈ u.childSet n := ⟨_, children, List.mem_cons_self⟩
    have image : f m ∈ t.childSet (f n) := by
      rw [← iso.children n inside]
      exact Set.mem_image_of_mem f child
    have known : f n ∈ t.nodes := builtT.subtree_member cMember (iso.bijective.mapsTo inside)
    have behind := ih (child_mem_subtree inside child)
    rw [builtT.wildcards_child known image] at behind
    have kind := iso.kinds n inside
    by_cases array : n.kind = .array <;> simp only [counted, kind, array, if_true, if_false] at behind <;> omega

/-- The leaf's path has as many array levels more as there are arrays on the way. -/
theorem Built.descends_wildcards (built : u.Built) (member : p ∈ u.nodes) (descends : Descends u.nodes p 0 l total) :
    l.wildcards = p.wildcards + total :=
  descends_carried built built member member (.refl u p) descends .refl

/-- Paths grow along the links. -/
theorem Built.subtree_segments (built : t.Built) (member : c ∈ t.nodes) (inside : x ∈ t.subtree c) :
    c.segments <+: x.segments := by
  induction inside with
  | refl => exact List.prefix_rfl
  | tail above child ih =>
    have known := built.subtree_member member above
    rw [built.child_segments known ((built.mem_childSet known).mp child)]
    exact ih.trans (List.prefix_append _ _)

end SchemaTree

end PayloadSchema
