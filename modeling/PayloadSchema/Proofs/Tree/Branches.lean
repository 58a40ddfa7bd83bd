import Mathlib.Data.List.Flatten
import PayloadSchema.Proofs.Arena.NodeTrees
import PayloadSchema.Proofs.Arena.WalkExactness
import PayloadSchema.Tree.Branch

/-! Branches of arenas that make a tree. Unfolding as many levels as there are nodes leaves nothing out, and a
walk lists the nodes of a branch in the order that recursion over it does. -/
namespace PayloadSchema.Branch
open Arena Walk

/-- What holds of a node whenever it holds of all branches below holds of every branch. -/
theorem induction {P : Branch → Prop} (mk : ∀ n bs, (∀ b ∈ bs, P b) → P (.mk n bs)) (b : Branch) : P b :=
  @Branch.rec P (fun bs => ∀ b ∈ bs, P b) mk (fun _ none => absurd none List.not_mem_nil)
    (fun _ _ first rest => List.forall_mem_cons.mpr ⟨first, rest⟩) b

theorem preorderAll_eq (bs : List Branch) : preorderAll bs = bs.flatMap preorder := by
  induction bs with
  | nil => rfl
  | cons b rest ih => rw [preorderAll, ih, List.flatMap_cons]

theorem preorder_mk (n : Node) (bs : List Branch) : (mk n bs).preorder = n :: bs.flatMap preorder := by
  rw [preorder, preorderAll_eq]

/-- The nodes below the root of a branch. -/
def beneath (b : Branch) : List Node := b.children.flatMap preorder

theorem preorder_eq (b : Branch) : b.preorder = b.node :: b.beneath := by
  cases b with
  | mk n bs => exact preorder_mk n bs

theorem node_mem_preorder (b : Branch) : b.node ∈ b.preorder := by
  rw [preorder_eq]
  exact List.mem_cons_self

theorem mem_preorder_of_beneath {b : Branch} {x : Node} (inside : x ∈ b.beneath) : x ∈ b.preorder := by
  rw [preorder_eq]
  exact List.mem_cons_of_mem _ inside

theorem mem_beneath {b c : Branch} {x : Node} (child : c ∈ b.children) (inside : x ∈ c.preorder) : x ∈ b.beneath :=
  List.mem_flatMap.mpr ⟨c, child, inside⟩

theorem child_sublist {b c : Branch} (child : c ∈ b.children) : c.preorder.Sublist b.beneath := by
  have part := (List.singleton_sublist.mpr child).flatMap preorder
  rwa [List.flatMap_singleton] at part

/-- The roots of the branches just below stand there in order. -/
theorem roots_sublist (b : Branch) : (b.children.map (·.node)).Sublist b.beneath := by
  rw [beneath]
  induction b.children with
  | nil => exact List.Sublist.refl _
  | cons c rest ih =>
    rw [List.map_cons, List.flatMap_cons, preorder_eq, List.cons_append]
    exact (ih.trans (List.sublist_append_right _ _)).cons_cons _

/-- No name stands twice in a branch. -/
def Distinct (b : Branch) : Prop := (b.preorder.map (·.name)).Nodup

theorem distinct_beneath {b : Branch} (distinct : b.Distinct) : (b.beneath.map (·.name)).Nodup := by
  rw [Distinct, preorder_eq, List.map_cons] at distinct
  exact distinct.of_cons

theorem distinct_child {b c : Branch} (distinct : b.Distinct) (child : c ∈ b.children) : c.Distinct :=
  (distinct_beneath distinct).sublist ((child_sublist child).map _)

/-- The branch of a node with nothing left out. -/
def whole (nodes : List Node) (n : Node) : Branch := unfold nodes nodes.length n

theorem unfold_succ (nodes : List Node) (levels : Nat) (n : Node) :
    unfold nodes (levels + 1) n = mk n ((childNodes nodes n).map (unfold nodes levels)) := by
  simp [unfold, childNodes, List.map_filterMap]

variable {nodes : List Node} {root : Position} {n : Node} {k levels : Nat} (shaped : TreeShaped nodes root)
include shaped

theorem child_ascends (member : n ∈ nodes) (above : Ascends (nodes.map (·.toLinks)) root k n.index) {m : Node}
    (child : m ∈ childNodes nodes n) : Ascends (nodes.map (·.toLinks)) root (k + 1) m.index := by
  obtain ⟨known, named⟩ := (shaped.mem_childNodes member).mp child
  exact .parent ((parentAt_links (shaped.at_index known)).trans named) above

/-- Where fewer levels are left than are unfolded, one more shows nothing new. -/
theorem unfold_stable (member : n ∈ nodes) (above : Ascends (nodes.map (·.toLinks)) root k n.index)
    (enough : nodes.length ≤ k + levels) : unfold nodes (levels + 1) n = unfold nodes levels n := by
  induction levels generalizing k n with
  | zero =>
    have bound := ascends_lt_length shaped.tree above (by simpa using shaped.index_inside member)
    rw [List.length_map] at bound
    omega
  | succ levels ih =>
    rw [unfold_succ nodes (levels + 1), unfold_succ nodes levels]
    congr 1
    apply List.map_congr_left
    intro m child
    exact ih (shaped.child_member member child) (child_ascends shaped member above child) (by omega)

/-- Below a node stand the branches of its children, in order. -/
theorem whole_eq (member : n ∈ nodes) : whole nodes n = mk n ((childNodes nodes n).map (whole nodes)) := by
  obtain ⟨k, above⟩ := shaped.tree.ascends n.index (by simpa using shaped.index_inside member)
  have stable := unfold_stable shaped member above (Nat.le_add_left nodes.length k)
  rw [unfold_succ] at stable
  exact stable.symm

theorem preorder_whole (member : n ∈ nodes) :
    (whole nodes n).preorder = n :: (childNodes nodes n).flatMap fun m => (whole nodes m).preorder := by
  rw [whole_eq shaped member, preorder_mk, List.flatMap_map]

theorem below_eq {x : Position} (inside : Inside nodes.length x) :
    below (nodes.map (·.toLinks)) root x = childrenAt (nodes.map (·.toLinks)) x := by
  have xInside : Inside (nodes.map (·.toLinks)).length x := by simpa using inside
  refine heirs_eq_self_iff.mpr ⟨shaped.tree.nodup x xInside, fun c listed => ?_⟩
  have named := (shaped.tree.agree x c (closed_children shaped.closed xInside listed)).mpr ⟨xInside, listed⟩
  refine ⟨?_, named⟩
  rintro rfl
  simp [shaped.tree.parentless] at named

/-- A descent lists the waiting branches one behind the other. -/
theorem descent_preorder {waiting order : List Position}
    (descent : Descent (below (nodes.map (·.toLinks)) root) waiting order)
    (inside : ∀ p ∈ waiting, Inside nodes.length p) :
    order.filterMap (nodeAt? nodes) =
      (waiting.filterMap (nodeAt? nodes)).flatMap fun n => (whole nodes n).preorder := by
  induction descent with
  | done => rfl
  | @visit x waiting order _ ih =>
    have xInside := inside x List.mem_cons_self
    obtain ⟨n, member, same, found⟩ := shaped.node_at xInside
    have children : below (nodes.map (·.toLinks)) root x = n.children := by
      rw [below_eq shaped xInside, childrenAt_links found]
    have behind := ih fun p listed => by
      rcases List.mem_append.mp listed with child | later
      · exact shaped.children_inside member (children ▸ child)
      · exact inside p (List.mem_cons_of_mem x later)
    rw [List.filterMap_cons_some found, List.filterMap_cons_some found, behind, List.flatMap_cons, children,
      preorder_whole shaped member, List.filterMap_append, List.flatMap_append]
    rfl

end PayloadSchema.Branch
