import Mathlib.Data.Multiset.MapFold
import PayloadSchema.Proofs.Matching.ExactSearch

/-! The maps of a match as a set. The order of their entries and the order in which they are listed are left aside;
what stays is one map for every isomorphism. Isomorphisms can be undone and put one behind the other, and carry the maps
of one match over to those of another. -/
namespace PayloadSchema.Correspondence

/-- The entries of a map, whatever their order. -/
def content (m : Correspondence) : Multiset (Text × Text) := m

/-- Maps that pair the same names are the same, and each is listed once. -/
structure SameMaps (ms ns : List Correspondence) : Prop where
  once : (ms.map content).Nodup
  same : (ms.map content).Perm (ns.map content)

end PayloadSchema.Correspondence

namespace PayloadSchema.SchemaTree
open Arena Branch Matching Correspondence

variable {t u v t' u' : SchemaTree} {p c q p' c' x : Node} {f g h k : Node → Node} {ms ns : List Correspondence}
  {assigner : Assigner}

theorem child_mem_subtree (inside : x ∈ u.subtree p) : u.childSet x ⊆ u.subtree p :=
  fun _ child => Relation.ReflTransGen.tail inside child

theorem Built.subtree_member (built : u.Built) (member : p ∈ u.nodes) (inside : x ∈ u.subtree p) : x ∈ u.nodes :=
  built.mem_preorder.mp ((built.branch_sublist member).subset ((built.mem_subtree member).mp inside))

namespace Isomorphism

protected theorem refl (u : SchemaTree) (p : Node) : Isomorphism u u p p id where
  root := rfl
  bijective := Set.bijOn_id _
  kinds _ _ := rfl
  children _ _ := Set.image_id _

/-- Isomorphisms may be taken one after the other. -/
protected theorem trans (first : Isomorphism u t p c f) (second : Isomorphism t v c q g) :
    Isomorphism u v p q (g ∘ f) where
  root := by rw [Function.comp_apply, first.root, second.root]
  bijective := second.bijective.comp first.bijective
  kinds x inside := (second.kinds _ (first.bijective.mapsTo inside)).trans (first.kinds x inside)
  children x inside := by
    rw [Set.image_comp, first.children x inside, second.children _ (first.bijective.mapsTo inside)]
    rfl

/-- What undoes an isomorphism is one. -/
protected theorem symm (iso : Isomorphism u t p c f) :
    ∃ g, Isomorphism t u c p g ∧ Set.InvOn g f (u.subtree p) (t.subtree c) := by
  have : Nonempty Node := ⟨p⟩
  let g := Function.invFunOn f (u.subtree p)
  have undone : Set.InvOn g f (u.subtree p) (t.subtree c) := iso.bijective.invOn_invFunOn
  have top : p ∈ u.subtree p := .refl
  have back : Set.BijOn g (t.subtree c) (u.subtree p) := iso.bijective.symm undone.symm
  refine ⟨g, ⟨?_, back, fun y inside => ?_, fun y inside => ?_⟩, undone⟩
  · rw [← iso.root, undone.1 top]
  · have kind := iso.kinds _ (back.mapsTo inside)
    rw [undone.2 inside] at kind
    exact kind.symm
  · have below := iso.children _ (back.mapsTo inside)
    rw [undone.2 inside] at below
    rw [← below]
    exact (undone.1.mono (child_mem_subtree (back.mapsTo inside))).image_image

end Isomorphism

/-- The names that a function pairs on a branch. -/
def pairs (b : Branch) (f : Node → Node) : Multiset (Text × Text) :=
  (b.preorder.map (entry f) : List (Text × Text))

theorem pairs_congr {b : Branch} (same : ∀ x ∈ b.preorder, f x = g x) : pairs b f = pairs b g := by
  rw [pairs, pairs, List.map_congr_left fun x inside => ?_]
  rw [entry, entry, same x inside]

/-- A match has one map for every isomorphism. -/
structure Hit (u t : SchemaTree) (p c : Node) (ms : List Correspondence) : Prop where
  isomorphic : ∃ f, Isomorphism u t p c f
  once : (ms.map content).Nodup
  maps : ∀ b, b ∈ ms.map content ↔ ∃ f, Isomorphism u t p c f ∧ b = pairs (u.branch p) f

section Hits
variable (builtU : u.Built) (builtT : t.Built) (pMember : p ∈ u.nodes)
include builtU builtT pMember

theorem hit_of_isomorphic (cMember : c ∈ t.nodes) (isomorphic : ∃ f, Isomorphism u t p c f) :
    Hit u t p c ((Matching.maps (t.branch c) (u.branch p)).map (rooted (t.branch c) (u.branch p))) where
  isomorphic := isomorphic
  once := by
    have apart := rooted_apart (builtT.branch_distinct cMember) (builtU.branch_distinct pMember)
    rw [List.Nodup, List.pairwise_map]
    exact apart.imp fun differ same => differ (Multiset.coe_eq_coe.mp same)
  maps b := by
    constructor
    · intro listed
      obtain ⟨m, known, rfl⟩ := List.mem_map.mp listed
      obtain ⟨f, iso, records⟩ := rooted_records builtT builtU pMember cMember known
      exact ⟨f, iso, Multiset.coe_eq_coe.mpr ((records_iff builtU pMember).mp records)⟩
    · rintro ⟨f, iso, rfl⟩
      obtain ⟨i, ⟨m, found, records⟩, _⟩ := recorded_once builtT builtU pMember cMember iso
      refine List.mem_map.mpr ⟨m, List.mem_of_getElem? found, ?_⟩
      exact Multiset.coe_eq_coe.mpr ((records_iff builtU pMember).mp records)

end Hits

section Searches
variable (cheapest : assigner.Cheapest) (builtU : u.Built) (builtT : t.Built) (pMember : p ∈ u.nodes)
include cheapest builtU builtT pMember

/-- A search finds the isomorphic subtrees. -/
theorem found_iff :
    (∃ ms, ⟨c, ms⟩ ∈ t.findSubtree assigner (u.branch p)) ↔ c ∈ t.nodes ∧ ∃ f, Isomorphism u t p c f := by
  have listed : (∃ ms, ⟨c, ms⟩ ∈ t.findSubtree assigner (u.branch p)) ↔
      c ∈ (t.findSubtree assigner (u.branch p)).map (·.node) := by
    rw [List.mem_map]
    exact ⟨fun ⟨ms, member⟩ => ⟨_, member, rfl⟩, fun ⟨hit, member, same⟩ => ⟨hit.maps, same ▸ member⟩⟩
  rw [listed, findSubtree_eq_plainFind cheapest builtT builtU pMember, plainFind_nodes, List.mem_filter,
    builtT.mem_preorder]
  exact and_congr_right fun known => matched_iff_isomorphism builtT builtU pMember known

/-- A match has the maps of the plain search. -/
theorem maps_of_found {hit : Match} (member : hit ∈ t.findSubtree assigner (u.branch p)) :
    hit.node ∈ t.nodes ∧
      hit.maps = (Matching.maps (t.branch hit.node) (u.branch p)).map (rooted (t.branch hit.node) (u.branch p)) := by
  rw [findSubtree_eq_plainFind cheapest builtT builtU pMember] at member
  obtain ⟨place, whole⟩ := mem_plainFind member
  exact ⟨builtT.mem_preorder.mp place, whole⟩

/-- Whatever a search finds is a match with all its maps. -/
theorem hit_of_found (member : ⟨c, ms⟩ ∈ t.findSubtree assigner (u.branch p)) :
    c ∈ t.nodes ∧ Hit u t p c ms := by
  obtain ⟨known, isomorphic⟩ := (found_iff cheapest builtU builtT pMember).mp ⟨ms, member⟩
  have whole : ms = (Matching.maps (t.branch c) (u.branch p)).map (rooted (t.branch c) (u.branch p)) :=
    (maps_of_found cheapest builtU builtT pMember member).2
  exact ⟨known, whole ▸ hit_of_isomorphic builtU builtT pMember known isomorphic⟩

end Searches

/-- Isomorphisms that pair the same names are the same function. -/
theorem eqOn_of_pairs (builtU : u.Built) (builtT : t.Built) (pMember : p ∈ u.nodes) (cMember : c ∈ t.nodes)
    (first : Isomorphism u t p c f) (second : Isomorphism u t p c g)
    (same : pairs (u.branch p) f = pairs (u.branch p) g) : Set.EqOn f g (u.subtree p) := by
  have recorded := (records_iff (f := f) builtU pMember).mpr (List.Perm.refl _)
  exact isomorphism_eqOn builtT builtU pMember cMember first second recorded
    ((records_iff builtU pMember).mpr (Multiset.coe_eq_coe.mp same))

/-- The names paired after isomorphisms on both sides are those that the isomorphisms make of the names paired
before. -/
theorem pairs_carried (builtU : u.Built) (builtU' : u'.Built) (pMember : p ∈ u.nodes) (pMember' : p' ∈ u'.nodes)
    (left : Isomorphism u u' p p' h) {a b : Text → Text} (names : ∀ x ∈ u.subtree p, a x.name = (h x).name)
    (images : ∀ x ∈ u.subtree p, b (f x).name = (g (h x)).name) :
    (pairs (u.branch p) f).map (Prod.map a b) = pairs (u'.branch p') g := by
  have nodes := aligned_preorder ((isomorphism_iff builtU builtU' pMember pMember').mp left)
  have entries : ∀ x ∈ (u.branch p).preorder, Prod.map a b (entry f x) = entry g (h x) := fun x inside => by
    have known := (builtU.mem_subtree pMember).mpr inside
    rw [entry, entry, Prod.map_apply, names x known, images x known]
  rw [pairs, pairs, Multiset.map_coe, List.map_map, Multiset.coe_eq_coe]
  refine .trans (.of_eq (List.map_congr_left entries)) ?_
  have moved := nodes.map (entry g)
  rwa [List.map_map] at moved

/-- Isomorphisms of the patterns and of the nodes found carry all maps of the one match over to all maps of the
other. -/
theorem hits_carried (builtU : u.Built) (builtU' : u'.Built) (builtT' : t'.Built)
    (pMember : p ∈ u.nodes) (pMember' : p' ∈ u'.nodes) (cMember' : c' ∈ t'.nodes)
    (left : Isomorphism u u' p p' h) (right : Isomorphism t t' c c' k) {a b : Text → Text}
    (names : ∀ x ∈ u.subtree p, a x.name = (h x).name) (images : ∀ y ∈ t.subtree c, b y.name = (k y).name)
    (first : Hit u t p c ms) (second : Hit u' t' p' c' ns) :
    ((ms.map content).map (Multiset.map (Prod.map a b))).Perm (ns.map content) := by
  obtain ⟨back, undo, undone⟩ := left.symm
  -- What isomorphism of the second match an isomorphism of the first one becomes.
  have carried : ∀ f, Isomorphism u t p c f → Isomorphism u' t' p' c' (k ∘ f ∘ back) ∧
      (pairs (u.branch p) f).map (Prod.map a b) = pairs (u'.branch p') (k ∘ f ∘ back) := fun f iso => by
    refine ⟨(undo.trans iso).trans right, pairs_carried builtU builtU' pMember pMember' left names fun x inside => ?_⟩
    rw [Function.comp_apply, Function.comp_apply, undone.1 inside]
    exact images _ (iso.bijective.mapsTo inside)
  have distinct : ((ms.map content).map (Multiset.map (Prod.map a b))).Nodup := by
    refine first.once.map_on fun d one e other same => ?_
    obtain ⟨f, isoF, rfl⟩ := (first.maps d).mp one
    obtain ⟨g, isoG, rfl⟩ := (first.maps e).mp other
    obtain ⟨movedF, pairsF⟩ := carried f isoF
    obtain ⟨movedG, pairsG⟩ := carried g isoG
    rw [pairsF, pairsG] at same
    have agree := eqOn_of_pairs builtU' builtT' pMember' cMember' movedF movedG same
    refine pairs_congr fun x inside => ?_
    rw [← builtU.mem_subtree pMember] at inside
    have images := agree (left.bijective.mapsTo inside)
    simp only [Function.comp_apply, undone.1 inside] at images
    exact right.bijective.injOn (isoF.bijective.mapsTo inside) (isoG.bijective.mapsTo inside) images
  refine (List.perm_ext_iff_of_nodup distinct second.once).mpr fun d => ?_
  rw [second.maps, List.mem_map]
  constructor
  · rintro ⟨e, listed, rfl⟩
    obtain ⟨f, iso, rfl⟩ := (first.maps e).mp listed
    exact ⟨_, (carried f iso).1, (carried f iso).2⟩
  · rintro ⟨g, iso, rfl⟩
    obtain ⟨undoK, revert, reverted⟩ := right.symm
    have before : Isomorphism u t p c (undoK ∘ g ∘ h) := (left.trans iso).trans revert
    refine ⟨_, (first.maps _).mpr ⟨_, before, rfl⟩, pairs_carried builtU builtU' pMember pMember' left names ?_⟩
    intro x inside
    rw [images _ (before.bijective.mapsTo inside), Function.comp_apply, Function.comp_apply,
      reverted.2 (iso.bijective.mapsTo (left.bijective.mapsTo inside))]

end PayloadSchema.SchemaTree
