import PayloadSchema.Proofs.Matching.MapSets
import PayloadSchema.Proofs.Tree.FirstChildren

/-! Which leaves are listed for a pattern. They are those with the type of the leaf at the end of the pattern's way down
and with enough array levels in their paths, and the maps of a match lead to one of them, below the node found. -/
namespace PayloadSchema

/-- Text that is written for some segments is not changed by segments behind them. -/
theorem Path.renderFrom_prefix {segments others : List Segment} (begins : segments <+: others) (started : Bool) :
    renderFrom started segments <+: renderFrom started others := by
  obtain ⟨more, rfl⟩ := begins
  induction segments generalizing started with
  | nil => exact List.nil_prefix
  | cons s rest ih => exact (List.prefix_append_right_inj _).mpr (ih _)

namespace SchemaTree
open Arena Branch Matching

variable {t u : SchemaTree} {p x l : Node} {total : Nat} {assigner : Assigner}

/-- What is listed of a leaf for a pattern with this root. -/
def feed (p x : Node) : LeafPath :=
  { name := x.name, kind := p.kind, dimension := p.size, unit := x.unit, path := x.pathText }

namespace Built

theorem mem_leaves (built : t.Built) : x ∈ t.leaves ↔ x ∈ t.nodes ∧ x.isLeaf := by
  rw [leaves, List.mem_filter, built.mem_preorder]

/-- The path of a node below another begins with the path of that one. -/
theorem pathText_begins (built : t.Built) (member : p ∈ t.nodes) (inside : x ∈ t.subtree p) :
    ∃ rest, x.pathText = p.pathText ++ rest := by
  obtain ⟨rest, whole⟩ := Path.renderFrom_prefix (built.subtree_segments member inside) false
  refine ⟨rest, ?_⟩
  rw [built.pathText_eq member, built.pathText_eq (built.subtree_member member inside)]
  exact whole.symm

/-- The way down counts the array levels that the path of its leaf has more. -/
theorem descends_levels (built : t.Built) (member : p ∈ t.nodes) (descends : Descends t.nodes p 0 l total) :
    ∃ above below, p.path = some above ∧ l.path = some below ∧
      (total : Int) = below.wildcardCount - above.wildcardCount := by
  have inside := built.subtree_member member (descends_subtree descends)
  have counts := built.descends_wildcards member descends
  refine ⟨_, _, built.path_eq member, built.path_eq inside, ?_⟩
  rw [built.wildcardCount_eq member (built.path_eq member), built.wildcardCount_eq inside (built.path_eq inside)]
  omega

/-- A leaf is no array itself, so the arrays on its way to the root are the array levels of its path. -/
theorem arraysAbove_leaf (built : t.Built) (leaf : x ∈ t.leaves) : t.arraysAbove x = x.wildcards := by
  obtain ⟨_, _, _, _, _, _, grown⟩ := built.grown
  have member := (built.mem_leaves.mp leaf).1
  obtain ⟨chain, climbed, _, ancestry, top⟩ := grown_ancestors grown member
  have primitive := built.leaf_primitive leaf
  have other : x.kind ≠ .array := by
    intro array
    simp [array, NodeType.isPrimitive] at primitive
  rw [Node.wildcards, built.wildcards_of_ancestry member ancestry top, arraysAbove, climbed]
  exact List.countP_cons_of_neg (by simpa using other)

end Built

section Listed
variable (builtU : u.Built) (builtT : t.Built) (member : p ∈ u.nodes)
include builtU builtT member

theorem leafPathsFor_eq (descends : Descends u.nodes p 0 l total) :
    t.leafPathsFor (u.branch p) =
      (t.leaves.filter fun x => x.kind = l.kind && total ≤ x.wildcards).map (feed p) := by
  obtain ⟨other, last, way⟩ := builtU.descends p member 0
  obtain ⟨rfl, rfl⟩ := descends_unique descends way
  rw [leafPathsFor, last, Branch.kind, node_branch, Nat.zero_add]
  refine congrArg (List.map (feed p)) (List.filter_congr fun x leaf => ?_)
  rw [builtT.arraysAbove_leaf leaf]

theorem feed_mem_leafPathsFor (descends : Descends u.nodes p 0 l total) (leaf : x ∈ t.leaves) (kind : x.kind = l.kind)
    (levels : total ≤ x.wildcards) : feed p x ∈ t.leafPathsFor (u.branch p) := by
  rw [leafPathsFor_eq builtU builtT member descends]
  exact List.mem_map_of_mem (List.mem_filter.mpr ⟨leaf, by simp [kind, levels]⟩)

end Listed

/-- The leaves listed for a pattern are those that fit the leaf at the end of its way down. -/
structure LeafPathsExact (u t : SchemaTree) (p : Node) : Prop where
  /-- The way down ends, and there is only one. -/
  ends : ∃! run : Node × Nat, Descends u.nodes p 0 run.1 run.2
  /-- The way down counts the array levels that the path of its leaf has more. -/
  levels : ∀ l total, Descends u.nodes p 0 l total → l ∈ u.leaves ∧ ∃ above below, p.path = some above ∧
    l.path = some below ∧ (total : Int) = below.wildcardCount - above.wildcardCount
  listed : ∀ l total, Descends u.nodes p 0 l total → ∃ above below, p.path = some above ∧ l.path = some below ∧
    ∃ fitting : List Node, fitting.Sublist t.leaves ∧ fitting.Nodup ∧
      (∀ x, x ∈ fitting ↔ x ∈ t.nodes ∧ x.isLeaf ∧ x.kind = l.kind ∧ ∃ path, x.path = some path ∧
        (below.wildcardCount : Int) - above.wildcardCount ≤ path.wildcardCount) ∧
      t.leafPathsFor (u.branch p) = fitting.map (feed p)

/-- For every pattern in a built tree, the leaves of a built tree are listed exactly. -/
theorem leaf_paths_exact (builtU : u.Built) (builtT : t.Built) (member : p ∈ u.nodes) : LeafPathsExact u t p where
  ends := by
    obtain ⟨l, _, way⟩ := builtU.descends p member 0
    exact ⟨(l, _), way, fun _ other => Prod.ext_iff.mpr (descends_unique other way)⟩
  levels l total descends := by
    have inside := builtU.subtree_member member (descends_subtree descends)
    exact ⟨builtU.mem_leaves.mpr ⟨inside, descends_leaf descends⟩, builtU.descends_levels member descends⟩
  listed l total descends := by
    obtain ⟨above, below, begins, ends, levels⟩ := builtU.descends_levels member descends
    refine ⟨above, below, begins, ends, _, List.filter_sublist, ?_, fun x => ?_,
      leafPathsFor_eq builtU builtT member descends⟩
    · exact (builtT.preorder_nodup.filter _).filter _
    · rw [← levels, List.mem_filter, builtT.mem_leaves, and_assoc, Bool.and_eq_true, decide_eq_true_iff,
        decide_eq_true_iff]
      refine and_congr_right fun known => and_congr_right fun _ => and_congr_right fun _ => ?_
      constructor
      · intro enough
        refine ⟨_, builtT.path_eq known, ?_⟩
        rw [builtT.wildcardCount_eq known (builtT.path_eq known)]
        exact Int.ofNat_le.mpr enough
      · rintro ⟨path, same, enough⟩
        rw [builtT.wildcardCount_eq known same] at enough
        exact Int.ofNat_le.mp enough

/-- Samples can be fed by themselves. -/
theorem device_samples_fed : ∃ t : SchemaTree, t.Built ∧ ∃ p ∈ t.nodes, LeafPathsExact t t p ∧
    t.leafPathsFor (t.branch p) =
      [{ name := "sample", kind := .array, dimension := 3, unit := "", path := "samples[*]" }] := by
  obtain ⟨t, ran, found⟩ := built_with {} device (fun t => t.nodes[3]?.map fun p => t.leafPathsFor (t.branch p))
    (some [{ name := "sample", kind := .array, dimension := 3, unit := "", path := "samples[*]" }]) (by decide +kernel)
  obtain ⟨p, standing, listed⟩ := Option.map_eq_some_iff.mp found
  have built : t.Built := ⟨_, _, ran⟩
  have member := List.mem_of_getElem? standing
  exact ⟨t, built, p, member, leaf_paths_exact built built member, listed⟩

/-- What every map of a match gives to the end of the pattern's way down is a leaf below the match, and is listed for
the pattern. -/
theorem mapped_leaf_listed (cheapest : assigner.Cheapest) (builtU : u.Built) (builtT : t.Built)
    (member : p ∈ u.nodes) :
    (∃ l total, Descends u.nodes p 0 l total) ∧
    ∀ l total, Descends u.nodes p 0 l total → ∀ hit ∈ t.findSubtree assigner (u.branch p), ∀ m ∈ hit.maps,
      ∃ x ∈ t.leaves, Assoc.get? m l.name = some x.name ∧ t.node? x.name = some x ∧
        feed p x ∈ t.leafPathsFor (u.branch p) ∧ ∃ rest, x.pathText = hit.node.pathText ++ rest := by
  obtain ⟨leaf, _, way⟩ := builtU.descends p member 0
  refine ⟨⟨leaf, _, way⟩, fun l total descends hit found m listed => ?_⟩
  have inside := descends_subtree descends
  obtain ⟨known, whole⟩ := maps_of_found cheapest builtU builtT member found
  obtain ⟨f, iso, keys, entries⟩ := rooted_records builtT builtU member known (whole ▸ listed)
  have image := iso.bijective.mapsTo inside
  have standing := builtT.subtree_member known image
  -- The image has the type of a leaf, so it is one.
  have barren : (f l).isLeaf := by
    rw [builtT.isLeaf_eq standing, iso.kinds l inside, ← builtU.isLeaf_eq (builtU.subtree_member member inside)]
    exact descends_leaf descends
  have carried := descends_carried builtU builtT member known iso descends .refl
  have imageLeaf := builtT.mem_leaves.mpr ⟨standing, barren⟩
  refine ⟨f l, imageLeaf, ?_, builtT.node_named standing, ?_, builtT.pathText_begins known image⟩
  · exact (Assoc.get?_eq_some_iff keys).mpr ((entries _).mpr ⟨l, inside, rfl⟩)
  · refine feed_mem_leafPathsFor builtU builtT member descends imageLeaf (iso.kinds l inside) ?_
    omega

/-- The map of a gauge to itself that lets its readings change places. -/
def readingsSwapped : Correspondence := [("gauge", "gauge"), ("high", "low"), ("low", "high")]

/-- The reading of a gauge that its other reading stands for is listed for the gauge. -/
theorem gauge_leaf_listed : Assigner.serving.Cheapest ∧ ∃ t : SchemaTree, t.Built ∧ t.root ∈ t.nodes ∧
    ∃ hit ∈ t.findSubtree .serving (t.branch t.root), readingsSwapped ∈ hit.maps ∧
      ∃ l total, Descends t.nodes t.root 0 l total ∧ ∃ x ∈ t.leaves,
        Assoc.get? readingsSwapped l.name = some x.name ∧
          t.node? x.name = some x ∧ feed t.root x ∈ t.leafPathsFor (t.branch t.root) ∧
          ∃ rest, x.pathText = hit.node.pathText ++ rest := by
  obtain ⟨t, ran, listed⟩ := gauge_plain
  have built : t.Built := ⟨_, _, ran⟩
  rw [← findSubtree_eq_plainFind Assigner.serving_cheapest built built built.root_member] at listed
  obtain ⟨hit, matched, same⟩ := List.mem_map.mp (listed ▸ List.mem_singleton_self (("gauge" : Text), gaugeMaps))
  have swapped : readingsSwapped ∈ hit.maps := by
    rw [(Prod.mk.inj same).2]
    decide
  obtain ⟨⟨l, total, descends⟩, kept⟩ :=
    mapped_leaf_listed Assigner.serving_cheapest built built built.root_member
  exact ⟨Assigner.serving_cheapest, t, built, built.root_member, hit, matched, swapped, l, total, descends,
    kept l total descends hit matched _ swapped⟩

end SchemaTree

end PayloadSchema
