import Mathlib.Data.Set.Function
import Mathlib.Logic.Relation
import PayloadSchema.Proofs.Matching.Alignments
import PayloadSchema.Proofs.Tree.Structure

/-! Isomorphisms of subtrees, said of nodes, their types and the sets of their children. In built trees the functions
that align two branches are exactly these. -/
namespace PayloadSchema.SchemaTree
open Arena Branch Matching

variable {t u : SchemaTree} {n m p c x : Node} {f : Node → Node}

def childSet (t : SchemaTree) (n : Node) : Set Node := {m | ∃ kids, n.childrenIn t.nodes = .ok kids ∧ m ∈ kids}

/-- The nodes that steps from node to child lead to, the first one with them. -/
def subtree (t : SchemaTree) (n : Node) : Set Node := {m | Relation.ReflTransGen (fun x y => y ∈ t.childSet x) n m}

/-- A bijection of two subtrees that keeps types and takes the children of a node to those of its image. -/
structure Isomorphism (u t : SchemaTree) (p c : Node) (f : Node → Node) : Prop where
  root : f p = c
  bijective : Set.BijOn f (u.subtree p) (t.subtree c)
  kinds : ∀ x ∈ u.subtree p, (f x).kind = x.kind
  children : ∀ x ∈ u.subtree p, f '' u.childSet x = t.childSet (f x)

theorem node_branch (t : SchemaTree) (n : Node) : (t.branch n).node = n := by
  unfold branch
  cases t.nodes.length <;> rfl

theorem self_mem_branch (t : SchemaTree) (n : Node) : n ∈ (t.branch n).preorder := by
  have top := node_mem_preorder (t.branch n)
  rwa [node_branch] at top

namespace Built

theorem mem_childSet (built : t.Built) (member : n ∈ t.nodes) : m ∈ t.childSet n ↔ m ∈ childNodes t.nodes n := by
  have listed := built.shaped.childrenIn_eq member
  constructor
  · rintro ⟨kids, found, child⟩
    rw [listed] at found
    cases found
    exact child
  · exact fun child => ⟨_, listed, child⟩

theorem children_branch (built : t.Built) (member : n ∈ t.nodes) :
    (t.branch n).children = (childNodes t.nodes n).map t.branch := by
  rw [built.branch_eq member]
  rfl

theorem roots_branch (built : t.Built) (member : n ∈ t.nodes) :
    (t.branch n).children.map (·.node) = childNodes t.nodes n := by
  rw [built.children_branch member, List.map_map]
  exact (List.map_congr_left fun m _ => node_branch t m).trans (List.map_id _)

theorem childNodes_nodup (built : t.Built) (member : n ∈ t.nodes) : (childNodes t.nodes n).Nodup := by
  rw [← built.roots_branch member]
  exact (List.Nodup.of_map _ (distinct_beneath (built.branch_distinct member))).sublist (roots_sublist _)

/-- The nodes of a subtree are those of the branch. -/
theorem mem_subtree (built : t.Built) (member : n ∈ t.nodes) : m ∈ t.subtree n ↔ m ∈ (t.branch n).preorder := by
  constructor
  · intro path
    induction path using Relation.ReflTransGen.head_induction_on with
    | refl => exact self_mem_branch t _
    | @head n k step _ ih =>
      have child := (built.mem_childSet member).mp step
      have listed : t.branch k ∈ (t.branch n).children := by
        rw [built.children_branch member]
        exact List.mem_map_of_mem child
      exact mem_preorder_of_beneath (mem_beneath listed (ih (built.shaped.child_member member child)))
  · generalize whole : t.branch n = b
    intro inside
    induction b using Branch.induction generalizing n with
    | mk k bs ih =>
      rw [← whole, preorder_eq, node_branch] at inside
      rcases List.mem_cons.mp inside with rfl | inside
      · exact .refl
      · obtain ⟨d, listed, below⟩ := List.mem_flatMap.mp inside
        rw [whole] at listed
        have known : d ∈ (childNodes t.nodes n).map t.branch := by
          rw [← built.children_branch member, whole]
          exact listed
        obtain ⟨e, child, rfl⟩ := List.mem_map.mp known
        have step := (built.mem_childSet member).mpr child
        exact .head step (ih _ listed (built.shaped.child_member member child) rfl below)

end Built

/-- What aligns two branches aligns the branches of every node below and of its image. -/
theorem aligned_at (builtU : u.Built) (builtT : t.Built) {d b : Branch} (aligned : Aligned f d b) :
    ∀ {p c : Node}, p ∈ u.nodes → c ∈ t.nodes → u.branch p = b → t.branch c = d →
      ∀ x ∈ b.preorder, x ∈ u.nodes ∧ f x ∈ t.nodes ∧ Aligned f (t.branch (f x)) (u.branch x) := by
  induction aligned with
  | @mk d b es candidates patterns root kind below ih =>
    intro p c pMember cMember whole other x inside
    rw [preorder_eq] at inside
    rcases List.mem_cons.mp inside with rfl | inside
    · rw [root, ← whole, ← other, node_branch, node_branch, whole, other]
      exact ⟨pMember, cMember, .mk es candidates patterns root kind below⟩
    · obtain ⟨e, member, within⟩ := List.mem_flatMap.mp ((beneath_perm patterns).symm.subset inside)
      have pattern : e.2 ∈ (u.branch p).children := whole ▸ patterns.subset (List.mem_map_of_mem member)
      have candidate : e.1 ∈ (t.branch c).children := other ▸ candidates ▸ List.mem_map_of_mem member
      rw [builtU.children_branch pMember] at pattern
      rw [builtT.children_branch cMember] at candidate
      obtain ⟨y, child, sameP⟩ := List.mem_map.mp pattern
      obtain ⟨z, image, sameC⟩ := List.mem_map.mp candidate
      exact ih e member (builtU.shaped.child_member pMember child) (builtT.shaped.child_member cMember image)
        sameP sameC x within

/-- What aligns branches of built trees is an isomorphism. -/
theorem isomorphism_of_aligned (builtU : u.Built) (builtT : t.Built) (pMember : p ∈ u.nodes) (cMember : c ∈ t.nodes)
    (aligned : Aligned f (t.branch c) (u.branch p)) : Isomorphism u t p c f where
  root := by
    have root := aligned_root aligned
    rwa [node_branch, node_branch] at root
  bijective := by
    have images := aligned_preorder aligned
    have distinct : ((u.branch p).preorder.map f).Nodup :=
      images.nodup_iff.mpr (.of_map _ (builtT.branch_distinct cMember))
    refine ⟨fun x inside => ?_, fun x inside y other same => ?_, fun z inside => ?_⟩
    · rw [builtU.mem_subtree pMember] at inside
      exact (builtT.mem_subtree cMember).mpr (images.subset (List.mem_map_of_mem inside))
    · rw [builtU.mem_subtree pMember] at inside other
      exact List.inj_on_of_nodup_map distinct inside other same
    · rw [builtT.mem_subtree cMember] at inside
      obtain ⟨x, known, image⟩ := List.mem_map.mp (images.symm.subset inside)
      exact ⟨x, (builtU.mem_subtree pMember).mpr known, image⟩
  kinds x inside := by
    rw [builtU.mem_subtree pMember] at inside
    obtain ⟨_, _, below⟩ := aligned_at builtU builtT aligned pMember cMember rfl rfl x inside
    have kind := aligned_kind below
    rwa [Branch.kind, Branch.kind, node_branch, node_branch] at kind
  children x inside := by
    rw [builtU.mem_subtree pMember] at inside
    obtain ⟨known, image, below⟩ := aligned_at builtU builtT aligned pMember cMember rfl rfl x inside
    have roots := aligned_roots below
    rw [builtU.roots_branch known, builtT.roots_branch image] at roots
    ext z
    rw [builtT.mem_childSet image, ← roots.mem_iff, List.mem_map]
    exact exists_congr fun y => and_congr_left fun _ => builtU.mem_childSet known

/-- Where nodes are not joined, the children of an image are the images of the children. -/
theorem images_perm (builtU : u.Built) (builtT : t.Built) (pMember : p ∈ u.nodes) (image : f p ∈ t.nodes)
    (apart : ∀ x ∈ childNodes u.nodes p, ∀ y ∈ childNodes u.nodes p, f x = f y → x = y)
    (children : f '' u.childSet p = t.childSet (f p)) :
    (childNodes t.nodes (f p)).Perm ((childNodes u.nodes p).map f) := by
  have distinct := (builtU.childNodes_nodup pMember).map_on apart
  apply (List.perm_ext_iff_of_nodup (builtT.childNodes_nodup image) distinct).mpr
  intro z
  rw [← builtT.mem_childSet image, ← children, List.mem_map]
  exact exists_congr fun y => and_congr_left fun _ => builtU.mem_childSet pMember

/-- A function that keeps types and takes children to children aligns branches when it does not join nodes. -/
theorem aligned_of_local (builtU : u.Built) (builtT : t.Built) (b : Branch) : ∀ {p : Node}, p ∈ u.nodes →
    u.branch p = b → f p ∈ t.nodes → (∀ x ∈ b.preorder, ∀ y ∈ b.preorder, f x = f y → x = y) →
    (∀ x ∈ b.preorder, (f x).kind = x.kind) → (∀ x ∈ b.preorder, f '' u.childSet x = t.childSet (f x)) →
    Aligned f (t.branch (f p)) b := by
  induction b using Branch.induction with
  | mk k bs ih =>
    intro p pMember whole image apart kinds children
    rw [← whole] at apart kinds children ⊢
    have top := self_mem_branch u p
    have listed : ∀ y ∈ childNodes u.nodes p, u.branch y ∈ (u.branch p).children := fun y child => by
      rw [builtU.children_branch pMember]
      exact List.mem_map_of_mem child
    have inner : ∀ y ∈ childNodes u.nodes p, ∀ x ∈ (u.branch y).preorder, x ∈ (u.branch p).preorder :=
      fun y child x inside => mem_preorder_of_beneath (mem_beneath (listed y child) inside)
    have first : ∀ y ∈ childNodes u.nodes p, y ∈ (u.branch p).preorder :=
      fun y child => inner y child y (self_mem_branch u y)
    have images := images_perm builtU builtT pMember image
      (fun x one y other => apart x (first x one) y (first y other)) (children p top)
    -- The children of the pattern are put in the order of those of the candidate.
    obtain ⟨ks, ordered, perm⟩ := perm_map images
    refine .mk (ks.map fun y => (t.branch (f y), u.branch y)) ?_ ?_ ?_ ?_ ?_
    · rw [builtT.children_branch image, ordered, List.map_map, List.map_map]
      rfl
    · rw [builtU.children_branch pMember, List.map_map]
      exact perm.map u.branch
    · rw [node_branch, node_branch]
    · rw [Branch.kind, Branch.kind, node_branch, node_branch]
      exact kinds p top
    · intro e member
      obtain ⟨y, known, rfl⟩ := List.mem_map.mp member
      have child := perm.subset known
      have within := inner y child
      have imageKnown : f y ∈ t.nodes := by
        apply builtT.shaped.child_member image
        rw [ordered]
        exact List.mem_map_of_mem known
      refine ih (u.branch y) ?_ (builtU.shaped.child_member pMember child) rfl imageKnown
        (fun x one z other => apart x (within x one) z (within z other)) (fun x inside => kinds x (within x inside))
        fun x inside => children x (within x inside)
      have below := listed y child
      rwa [whole] at below

/-- Isomorphisms of subtrees of built trees are the functions that align the branches. -/
theorem isomorphism_iff (builtU : u.Built) (builtT : t.Built) (pMember : p ∈ u.nodes) (cMember : c ∈ t.nodes) :
    Isomorphism u t p c f ↔ Aligned f (t.branch c) (u.branch p) := by
  constructor
  · intro iso
    obtain rfl := iso.root
    have inside : ∀ x, x ∈ (u.branch p).preorder → x ∈ u.subtree p := fun x => (builtU.mem_subtree pMember).mpr
    exact aligned_of_local builtU builtT _ pMember rfl cMember
      (fun x one y other => iso.bijective.injOn (inside x one) (inside y other))
      (fun x listed => iso.kinds x (inside x listed)) fun x listed => iso.children x (inside x listed)
  · exact isomorphism_of_aligned builtU builtT pMember cMember

end PayloadSchema.SchemaTree
