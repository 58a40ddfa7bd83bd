import PayloadSchema.Proofs.Arena.LinkedTrees
import PayloadSchema.Proofs.Lists

/-! Arenas of nodes that make a tree, where parents, children and ancestors are nodes and no longer positions. -/
namespace PayloadSchema.Arena

/-- Nodes that stand at their own positions and whose links make a tree. -/
structure TreeShaped (nodes : List Node) (root : Position) : Prop where
  indexed : ∀ (i : Nat) n, nodes[i]? = some n → n.index = i
  closed : Closed (nodes.map (·.toLinks))
  inside : Inside nodes.length root
  tree : IsTree (nodes.map (·.toLinks)) root

/-- The nodes that a node lists as its children, in order. -/
def childNodes (nodes : List Node) (n : Node) : List Node := n.children.filterMap (nodeAt? nodes)

/-- Each node of a chain is the parent of the one before it. -/
def Ancestry (nodes : List Node) : List Node → Prop :=
  List.IsChain fun m p => p ∈ nodes ∧ m.parent = some p.index

namespace TreeShaped

variable {nodes : List Node} {root p : Position} {m n : Node} {k levels : Nat} (shaped : TreeShaped nodes root)
include shaped

theorem at_index (member : n ∈ nodes) : nodeAt? nodes n.index = some n := by
  obtain ⟨i, found⟩ := List.mem_iff_getElem?.mp member
  rw [shaped.indexed i n found, nodeAt?_natCast, found]

theorem index_inside (member : n ∈ nodes) : Inside nodes.length n.index := by
  obtain ⟨i, found⟩ := List.mem_iff_getElem?.mp member
  exact inside_iff.mpr ⟨i, (List.getElem?_eq_some_iff.mp found).1, (shaped.indexed i n found).symm⟩

theorem node_at (inside : Inside nodes.length p) : ∃ n ∈ nodes, n.index = p ∧ nodeAt? nodes p = some n := by
  obtain ⟨i, bound, rfl⟩ := inside_iff.mp inside
  have found : nodes[i]? = some nodes[i] := List.getElem?_eq_getElem bound
  exact ⟨nodes[i], List.getElem_mem bound, shaped.indexed i _ found, by rw [nodeAt?_natCast, found]⟩

theorem eq_of_index (one : m ∈ nodes) (other : n ∈ nodes) (same : m.index = n.index) : m = n := by
  have found := shaped.at_index one
  rw [same, shaped.at_index other] at found
  exact (Option.some.inj found).symm

theorem indices_nodup : (nodes.map (·.index)).Nodup := by
  apply List.nodup_iff_injective_getElem.mpr
  intro i j same
  obtain ⟨i, iBound⟩ := i
  obtain ⟨j, jBound⟩ := j
  simp only [List.length_map] at iBound jBound
  simp only [List.getElem_map] at same
  rw [shaped.indexed i _ (List.getElem?_eq_getElem iBound),
    shaped.indexed j _ (List.getElem?_eq_getElem jBound)] at same
  simpa using Int.ofNat.inj same

theorem nodes_nodup : nodes.Nodup := List.Nodup.of_map _ shaped.indices_nodup

theorem children_inside (member : n ∈ nodes) {c : Position} (listed : c ∈ n.children) : Inside nodes.length c := by
  simpa using shaped.closed n.toLinks (List.mem_map_of_mem member) c listed

/-- A child is a node that names its parent. -/
theorem mem_childNodes (member : n ∈ nodes) : m ∈ childNodes nodes n ↔ m ∈ nodes ∧ m.parent = some n.index := by
  have children := childrenAt_links (shaped.at_index member)
  simp only [childNodes, List.mem_filterMap]
  constructor
  · rintro ⟨c, listed, found⟩
    have inside := shaped.children_inside member listed
    obtain ⟨e, known, rfl, at_c⟩ := shaped.node_at inside
    obtain rfl := Option.some.inj (at_c.symm.trans found)
    refine ⟨known, ?_⟩
    rw [← parentAt_links found]
    exact (shaped.tree.agree n.index e.index (by simpa using inside)).mpr
      ⟨by simpa using shaped.index_inside member, children ▸ listed⟩
  · rintro ⟨known, named⟩
    have inside := shaped.index_inside known
    rw [← parentAt_links (shaped.at_index known)] at named
    have listed := ((shaped.tree.agree n.index m.index (by simpa using inside)).mp named).2
    exact ⟨m.index, children ▸ listed, shaped.at_index known⟩

theorem child_member (member : n ∈ nodes) (child : m ∈ childNodes nodes n) : m ∈ nodes :=
  ((shaped.mem_childNodes member).mp child).1

/-- Positions inside lead to nodes that know them. -/
theorem nodes_at {ps : List Position} (inside : ∀ p ∈ ps, Inside nodes.length p) :
    (ps.filterMap (nodeAt? nodes)).map (·.index) = ps := by
  rw [List.map_filterMap]
  refine (List.filterMap_congr fun p listed => ?_).trans List.filterMap_some
  obtain ⟨n, _, same, found⟩ := shaped.node_at (inside p listed)
  simp [found, same]

theorem childNodes_index (member : n ∈ nodes) : (childNodes nodes n).map (·.index) = n.children :=
  shaped.nodes_at fun _ => shaped.children_inside member

theorem childrenIn_eq (member : n ∈ nodes) : n.childrenIn nodes = .ok (childNodes nodes n) := by
  have each : ∀ c ∈ n.children, nodeAt nodes c = .ok ((nodeAt? nodes c).getD n) := by
    intro c listed
    obtain ⟨e, _, _, found⟩ := shaped.node_at (shaped.children_inside member listed)
    rw [nodeAt_eq_ok_iff.mpr found, found, Option.getD_some]
  rw [Node.childrenIn, mapM_succeeds n.children each, childNodes, ← List.filterMap_eq_map]
  congr 1
  apply List.filterMap_congr
  intro c listed
  obtain ⟨e, _, _, found⟩ := shaped.node_at (shaped.children_inside member listed)
  simp [found]

theorem childNodes_nodup (member : n ∈ nodes) : (childNodes nodes n).Nodup := by
  have distinct := shaped.tree.nodup n.index (by simpa using shaped.index_inside member)
  rw [childrenAt_links (shaped.at_index member), ← shaped.childNodes_index member] at distinct
  exact List.Nodup.of_map _ distinct

/-- A node without a parent is the root; every other has its parent among the nodes. -/
theorem parent_cases (member : n ∈ nodes) :
    (n.parent = none ∧ n.index = root) ∨
      ∃ m ∈ nodes, n.parent = some m.index ∧ n.parentIn nodes = .ok (some m) ∧ n ∈ childNodes nodes m := by
  have found := shaped.at_index member
  cases named : n.parent with
  | none =>
    obtain ⟨k, above⟩ := shaped.tree.ascends n.index (by simpa using shaped.index_inside member)
    cases above with
    | root => exact .inl ⟨rfl, rfl⟩
    | parent step _ =>
      rw [parentAt_links found, named] at step
      cases step
  | some x =>
    have inside := shaped.index_inside member
    rw [← parentAt_links found] at named
    have agreed := (shaped.tree.agree x n.index (by simpa using inside)).mp named
    obtain ⟨m, known, rfl, at_x⟩ := shaped.node_at (p := x) (by simpa using agreed.1)
    rw [parentAt_links found] at named
    refine .inr ⟨m, known, rfl, ?_, (shaped.mem_childNodes known).mpr ⟨member, named⟩⟩
    simp [Node.parentIn, named, nodeAt_eq_ok_iff.mpr at_x, Except.map]

/-- Climbing high enough passes all nodes up to the root. -/
theorem climb_to_root (member : n ∈ nodes) (above : Ascends (nodes.map (·.toLinks)) root k n.index)
    (enough : k ≤ levels) :
    ∃ chain, n.climb nodes levels = .ok chain ∧ chain.length = k ∧ Ancestry nodes (n :: chain) ∧
      (n :: chain).getLast? = nodeAt? nodes root := by
  generalize position : n.index = p at above
  induction above generalizing n levels with
  | root =>
    subst position
    have parentless : n.parent = none := by rw [← parentAt_links (shaped.at_index member), shaped.tree.parentless]
    refine ⟨[], ?_, rfl, .singleton _, (shaped.at_index member).symm⟩
    cases levels with
    | zero => rfl
    | succ levels => simp [Node.climb, Node.parentIn, parentless, Bind.bind, Except.bind, Pure.pure, Except.pure]
  | @parent k p x named above ih =>
    subst position
    rw [parentAt_links (shaped.at_index member)] at named
    rcases shaped.parent_cases member with ⟨alone, _⟩ | ⟨m, known, naming, found, _⟩
    · simp [alone] at named
    · have same : m.index = x := Option.some.inj (naming.symm.trans named)
      cases levels with
      | zero => omega
      | succ levels =>
        obtain ⟨chain, climbed, length, ancestry, top⟩ := ih known (Nat.le_of_succ_le_succ enough) same
        refine ⟨m :: chain, ?_, by simp [length], List.isChain_cons_cons.mpr ⟨⟨known, naming⟩, ancestry⟩, ?_⟩
        · simp [Node.climb, found, climbed, Bind.bind, Except.bind, Pure.pure, Except.pure]
        · rw [List.getLast?_cons_cons, top]

end TreeShaped

end PayloadSchema.Arena
