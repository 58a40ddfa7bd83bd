import PayloadSchema.Proofs.Matching.MapSets

/-! Matching relates subtrees as an equivalence does. A subtree matches itself, matches can be read backwards and put
one behind the other, and the maps follow: the identity is among them, they turn into their inverses and compose. So
all matches of a pattern have as many maps as the pattern has onto itself. -/
namespace PayloadSchema.Correspondence

/-- The map that goes back from the matched names to those of the pattern. -/
def inverse (m : Correspondence) : Correspondence := m.map Prod.swap

/-- The map that takes names where the second map takes what the first one takes them to. -/
def followedBy (m k : Correspondence) : Correspondence :=
  m.filterMap fun e => (Assoc.get? k e.2).map fun target => (e.1, target)

theorem content_inverse (m : Correspondence) : m.inverse.content = m.content.map Prod.swap := rfl

end PayloadSchema.Correspondence

namespace PayloadSchema.SchemaTree
open Arena Branch Matching Correspondence

variable {t u v : SchemaTree} {p c q : Node} {f g : Node → Node} {m k : Correspondence} {ms ns : List Correspondence}
  {assigner : Assigner}

/-- The maps of a match read backwards are those of the isomorphisms read backwards. -/
theorem pairs_inverse (builtU : u.Built) (builtT : t.Built) (pMember : p ∈ u.nodes) (cMember : c ∈ t.nodes)
    (iso : Isomorphism u t p c f) (undone : Set.LeftInvOn g f (u.subtree p)) :
    (pairs (u.branch p) f).map Prod.swap = pairs (t.branch c) g := by
  have nodes := aligned_preorder ((isomorphism_iff builtU builtT pMember cMember).mp iso)
  have entries : ∀ x ∈ (u.branch p).preorder, (entry f x).swap = entry g (f x) := fun x inside => by
    rw [entry, entry, undone ((builtU.mem_subtree pMember).mpr inside), Prod.swap_prod_mk]
  rw [pairs, pairs, Multiset.map_coe, List.map_map, Multiset.coe_eq_coe]
  refine .trans (.of_eq (List.map_congr_left entries)) ?_
  have moved := nodes.map (entry g)
  rwa [List.map_map] at moved

/-- A map that records an isomorphism leads from every name to that of the image. -/
theorem get?_of_pairs (builtU : u.Built) (pMember : p ∈ u.nodes) (same : m.content = pairs (u.branch p) f) {x : Node}
    (inside : x ∈ u.subtree p) : Assoc.get? m x.name = some (f x).name := by
  obtain ⟨keys, entries⟩ := (records_iff builtU pMember).mpr (Multiset.coe_eq_coe.mp same)
  exact (Assoc.get?_eq_some_iff keys).mpr ((entries _).mpr ⟨x, inside, rfl⟩)

/-- Maps put one behind the other record the isomorphisms put one behind the other. -/
theorem content_followedBy (builtU : u.Built) (builtT : t.Built) (pMember : p ∈ u.nodes) (cMember : c ∈ t.nodes)
    (iso : Isomorphism u t p c f) (first : m.content = pairs (u.branch p) f)
    (second : k.content = pairs (t.branch c) g) : (m.followedBy k).content = pairs (u.branch p) (g ∘ f) := by
  have listed : m.Perm ((u.branch p).preorder.map (entry f)) := Multiset.coe_eq_coe.mp first
  have further : ∀ x ∈ (u.branch p).preorder,
      (Assoc.get? k (entry f x).2).map (fun target => ((entry f x).1, target)) = some (entry (g ∘ f) x) := by
    intro x inside
    have image := iso.bijective.mapsTo ((builtU.mem_subtree pMember).mpr inside)
    rw [entry, get?_of_pairs builtT cMember second image]
    rfl
  refine Multiset.coe_eq_coe.mpr ((listed.filterMap _).trans (.of_eq ?_))
  rw [List.filterMap_map, ← List.filterMap_eq_map]
  exact List.filterMap_congr further

/-- What matching is like between nodes of three trees. -/
structure MatchingLaws (assigner : Assigner) (u t v : SchemaTree) (p c q : Node) : Prop where
  /-- A pattern is found where it stands, and one map leaves every name as it is. -/
  reflexive : ∃ ms, ⟨p, ms⟩ ∈ u.findSubtree assigner (u.branch p) ∧ ∃ m ∈ ms, Records u p id m
  symmetric : (∃ ms, ⟨c, ms⟩ ∈ t.findSubtree assigner (u.branch p)) ↔ ∃ ns, ⟨p, ns⟩ ∈ u.findSubtree assigner (t.branch c)
  inverses : ∀ ms ns, ⟨c, ms⟩ ∈ t.findSubtree assigner (u.branch p) →
    ⟨p, ns⟩ ∈ u.findSubtree assigner (t.branch c) → SameMaps (ms.map inverse) ns
  transitive : ∀ ms ns, ⟨c, ms⟩ ∈ t.findSubtree assigner (u.branch p) →
    ⟨q, ns⟩ ∈ v.findSubtree assigner (t.branch c) → ∃ both, ⟨q, both⟩ ∈ v.findSubtree assigner (u.branch p) ∧
      ∀ m ∈ ms, ∀ k ∈ ns, ∃ n ∈ both, n.Perm (m.followedBy k)
  /-- A pattern has as many maps onto any match as onto itself. -/
  number : ∀ ms ns, ⟨c, ms⟩ ∈ t.findSubtree assigner (u.branch p) →
    ⟨p, ns⟩ ∈ u.findSubtree assigner (u.branch p) → ms.length = ns.length

section Laws
variable (builtU : u.Built) (builtT : t.Built) (pMember : p ∈ u.nodes) (cMember : c ∈ t.nodes)
include builtU builtT pMember cMember

theorem found_symm (cheapest : assigner.Cheapest) (found : ∃ ms, ⟨c, ms⟩ ∈ t.findSubtree assigner (u.branch p)) :
    ∃ ns, ⟨p, ns⟩ ∈ u.findSubtree assigner (t.branch c) := by
  obtain ⟨_, f, iso⟩ := (found_iff cheapest builtU builtT pMember).mp found
  obtain ⟨g, back, _⟩ := iso.symm
  exact (found_iff cheapest builtT builtU cMember).mpr ⟨pMember, g, back⟩

theorem inverse_maps (first : Hit u t p c ms) (second : Hit t u c p ns) : SameMaps (ms.map inverse) ns := by
  have turned : (ms.map inverse).map content = (ms.map content).map (Multiset.map Prod.swap) := by
    rw [List.map_map, List.map_map]
    exact List.map_congr_left fun m _ => content_inverse m
  have distinct : ((ms.map inverse).map content).Nodup := by
    rw [turned]
    exact first.once.map (Multiset.map_injective Prod.swap_injective)
  refine ⟨distinct, (List.perm_ext_iff_of_nodup distinct second.once).mpr fun d => ?_⟩
  rw [second.maps, turned, List.mem_map]
  constructor
  · rintro ⟨e, listed, rfl⟩
    obtain ⟨f, iso, rfl⟩ := (first.maps e).mp listed
    obtain ⟨g, back, undone⟩ := iso.symm
    exact ⟨g, back, pairs_inverse builtU builtT pMember cMember iso undone.1⟩
  · rintro ⟨g, back, rfl⟩
    obtain ⟨f, iso, undone⟩ := back.symm
    exact ⟨_, (first.maps _).mpr ⟨f, iso, rfl⟩, pairs_inverse builtU builtT pMember cMember iso undone.2⟩

/-- The number of maps is that of the maps of the pattern onto itself. -/
theorem number_of_maps (first : Hit u t p c ms) (self : Hit u u p p ns) : ms.length = ns.length := by
  obtain ⟨f, iso⟩ := first.isomorphic
  let name (s : Text) : Text := ((u.node? s).map fun y => (f y).name).getD s
  have images : ∀ y ∈ u.subtree p, name y.name = (f y).name := fun y inside => by
    simp only [name, builtU.node_named (builtU.subtree_member pMember inside), Option.map_some, Option.getD_some]
  have carried := hits_carried builtU builtU builtT pMember pMember cMember (.refl u p) iso (a := id) (fun _ _ => rfl)
    images self first
  simpa using carried.length_eq.symm

end Laws

/-- Matching is an equivalence of subtrees, and its maps are closed under identity, inverse and composition. -/
theorem matching_groupoid (cheapest : assigner.Cheapest) (builtU : u.Built) (builtT : t.Built) (builtV : v.Built)
    (pMember : p ∈ u.nodes) (cMember : c ∈ t.nodes) (qMember : q ∈ v.nodes) :
    MatchingLaws assigner u t v p c q where
  reflexive := by
    obtain ⟨ms, found⟩ := (found_iff cheapest builtU builtU pMember).mpr ⟨pMember, id, .refl u p⟩
    have hit := (hit_of_found cheapest builtU builtU pMember found).2
    obtain ⟨m, listed, same⟩ := List.mem_map.mp ((hit.maps _).mpr ⟨id, .refl u p, rfl⟩)
    exact ⟨ms, found, m, listed, (records_iff builtU pMember).mpr (Multiset.coe_eq_coe.mp same)⟩
  symmetric := ⟨found_symm builtU builtT pMember cMember cheapest, found_symm builtT builtU cMember pMember cheapest⟩
  inverses ms ns found back :=
    inverse_maps builtU builtT pMember cMember (hit_of_found cheapest builtU builtT pMember found).2
      (hit_of_found cheapest builtT builtU cMember back).2
  transitive ms ns first second := by
    have hitC := (hit_of_found cheapest builtU builtT pMember first).2
    have hitQ := (hit_of_found cheapest builtT builtV cMember second).2
    obtain ⟨f, iso⟩ := hitC.isomorphic
    obtain ⟨g, further⟩ := hitQ.isomorphic
    obtain ⟨both, found⟩ := (found_iff cheapest builtU builtV pMember).mpr ⟨qMember, g ∘ f, iso.trans further⟩
    refine ⟨both, found, fun m one k other => ?_⟩
    obtain ⟨f, iso, left⟩ := (hitC.maps _).mp (List.mem_map_of_mem one)
    obtain ⟨g, further, right⟩ := (hitQ.maps _).mp (List.mem_map_of_mem other)
    have composed := content_followedBy builtU builtT pMember cMember iso left right
    have hit := (hit_of_found cheapest builtU builtV pMember found).2
    obtain ⟨n, listed, same⟩ := List.mem_map.mp ((hit.maps _).mpr ⟨g ∘ f, iso.trans further, rfl⟩)
    exact ⟨n, listed, Multiset.coe_eq_coe.mp (same.trans composed.symm)⟩
  number ms ns found self :=
    number_of_maps builtU builtT pMember cMember (hit_of_found cheapest builtU builtT pMember found).2
      (hit_of_found cheapest builtU builtU pMember self).2

/-- A dial with two hands of the same type, listed in no particular order. -/
def dial : List Descriptor :=
  [{ name := "right", type := "double", parent := "dial" },
    { name := "dial", type := "object", children := some ["left", "right"] },
    { name := "left", type := "double", parent := "dial" }]

/-- A dial looks like a gauge in two ways, and all laws hold from the gauge to the dial and back. -/
theorem dial_laws : Assigner.serving.Cheapest ∧ ∃ u t : SchemaTree, ∃ c, u.Built ∧ t.Built ∧ u.root ∈ u.nodes ∧
    c ∈ t.nodes ∧ c.name = "dial" ∧ (∃ ms, ⟨c, ms⟩ ∈ t.findSubtree .serving (u.branch u.root) ∧ ms.length = 2) ∧
      MatchingLaws .serving u t u u.root c u.root := by
  have computed : ((build {} gauge).toOption.bind Outcome.tree?).bind (fun u =>
      ((build {} dial).toOption.bind Outcome.tree?).map fun t =>
        (plainFind t (u.branch u.root)).map fun hit => (hit.node.name, hit.maps.length)) =
          some [(("dial" : Text), 2)] := by
    simp only [plainFind, plainMatch_eq_fills]
    decide +kernel
  obtain ⟨u, ranU, computed⟩ := Option.bind_eq_some_iff.mp computed
  obtain ⟨t, ranT, found⟩ := Option.map_eq_some_iff.mp computed
  have builtU : u.Built := ⟨_, _, ok_of_tree ranU⟩
  have builtT : t.Built := ⟨_, _, ok_of_tree ranT⟩
  have cheapest := Assigner.serving_cheapest
  have searched := findSubtree_eq_plainFind cheapest builtT builtU builtU.root_member
  obtain ⟨hit, only, named⟩ := List.map_eq_singleton_iff.mp found
  have listed : hit ∈ t.findSubtree .serving (u.branch u.root) := by
    rw [searched, only]
    exact List.mem_singleton_self hit
  have known := (hit_of_found cheapest builtU builtT builtU.root_member listed).1
  have size : hit.node.name = "dial" ∧ hit.maps.length = 2 := Prod.mk.inj named
  exact ⟨cheapest, u, t, hit.node, builtU, builtT, builtU.root_member, known, size.1, ⟨hit.maps, listed, size.2⟩,
    matching_groupoid cheapest builtU builtT builtU builtU.root_member known builtU.root_member⟩

end PayloadSchema.SchemaTree
