import PayloadSchema.Proofs.Matching.MapSets
import PayloadSchema.Proofs.Tree.Siblings

/-! A search does not depend on the order of siblings, neither in the tree nor in the pattern. What is found, and in
what order, may change with it; the names found and the names that their maps pair do not. -/
namespace PayloadSchema.SchemaTree
open Descriptor Matching Correspondence

variable {t t' u u' : SchemaTree} {p c : Node} {ms ns : List Correspondence} {assigner : Assigner}

/-- Nodes of the same names are found, each with the same maps. -/
structure SameFindings (found other : List Match) : Prop where
  names : ∀ s, s ∈ found.map (·.node.name) ↔ s ∈ other.map (·.node.name)
  maps : ∀ hit ∈ found, ∀ second ∈ other, hit.node.name = second.node.name → SameMaps hit.maps second.maps

/-- Trees of the same nodes, with their children in any order. -/
structure Siblings (t u : SchemaTree) : Prop where
  first : t.Built
  second : u.Built
  there : Kin t u
  back : Kin u t

namespace Siblings

theorem symm (siblings : Siblings t u) : Siblings u t :=
  ⟨siblings.second, siblings.first, siblings.back, siblings.there⟩

theorem namesake_member (siblings : Siblings t u) (member : c ∈ t.nodes) : u.namesake c ∈ u.nodes :=
  (namesake_spec siblings.second siblings.there member).1

theorem namesake_named (siblings : Siblings t u) (member : c ∈ t.nodes) : (u.namesake c).name = c.name :=
  namesake_name siblings.second siblings.there member

theorem namesake_namesake (siblings : Siblings t u) (member : c ∈ t.nodes) : t.namesake (u.namesake c) = c := by
  have known := siblings.namesake_member member
  refine siblings.first.eq_of_name (siblings.symm.namesake_member known) member ?_
  rw [siblings.symm.namesake_named known, siblings.namesake_named member]

theorem isomorphism (siblings : Siblings t u) (member : c ∈ t.nodes) : Isomorphism t u c (u.namesake c) u.namesake :=
  namesake_isomorphism siblings.first siblings.second siblings.there siblings.back member

end Siblings

section Searches
variable (cheapest : assigner.Cheapest) (trees : Siblings t t') (patterns : Siblings u u') (pMember : p ∈ u.nodes)
include cheapest trees patterns pMember

/-- With a node its namesake is found. -/
theorem found_namesake (found : ⟨c, ms⟩ ∈ t.findSubtree assigner (u.branch p)) :
    ∃ ns, ⟨t'.namesake c, ns⟩ ∈ t'.findSubtree assigner (u'.branch (u'.namesake p)) := by
  obtain ⟨known, f, iso⟩ := (found_iff cheapest patterns.first trees.first pMember).mp ⟨ms, found⟩
  obtain ⟨g, back, _⟩ := (patterns.isomorphism pMember).symm
  exact (found_iff cheapest patterns.second trees.second (patterns.namesake_member pMember)).mpr
    ⟨trees.namesake_member known, _, (back.trans iso).trans (trees.isomorphism known)⟩

/-- Namesakes are found with the same maps. -/
theorem namesake_maps (found : ⟨c, ms⟩ ∈ t.findSubtree assigner (u.branch p))
    (other : ⟨t'.namesake c, ns⟩ ∈ t'.findSubtree assigner (u'.branch (u'.namesake p))) : SameMaps ms ns := by
  have pImage := patterns.namesake_member pMember
  obtain ⟨known, hit⟩ := hit_of_found cheapest patterns.first trees.first pMember found
  obtain ⟨standing, second⟩ := hit_of_found cheapest patterns.second trees.second pImage other
  have carried := hits_carried patterns.first patterns.second trees.second pMember pImage standing
    (patterns.isomorphism pMember) (trees.isomorphism known) (a := id) (b := id)
    (fun x inside => (patterns.namesake_named (patterns.first.subtree_member pMember inside)).symm)
    (fun y inside => (trees.namesake_named (trees.first.subtree_member known inside)).symm) hit second
  have unchanged : (ms.map content).map (Multiset.map (Prod.map id id)) = ms.map content := by
    rw [Prod.map_id, funext Multiset.map_id, List.map_id']
  rw [unchanged] at carried
  exact ⟨hit.once, carried⟩

theorem findings_same : SameFindings (t.findSubtree assigner (u.branch p))
    (t'.findSubtree assigner (u'.branch (u'.namesake p))) where
  names s := by
    simp only [List.mem_map]
    constructor
    · rintro ⟨⟨c, ms⟩, found, rfl⟩
      obtain ⟨ns, other⟩ := found_namesake cheapest trees patterns pMember found
      have known := (hit_of_found cheapest patterns.first trees.first pMember found).1
      exact ⟨_, other, trees.namesake_named known⟩
    · rintro ⟨⟨c, ns⟩, found, rfl⟩
      obtain ⟨ms, other⟩ :=
        found_namesake cheapest trees.symm patterns.symm (patterns.namesake_member pMember) found
      have known := (hit_of_found cheapest patterns.second trees.second (patterns.namesake_member pMember) found).1
      rw [patterns.namesake_namesake pMember] at other
      exact ⟨_, other, trees.symm.namesake_named known⟩
  maps := by
    rintro ⟨c, ms⟩ found ⟨d, ns⟩ other same
    have known := (hit_of_found cheapest patterns.first trees.first pMember found).1
    have standing := (hit_of_found cheapest patterns.second trees.second (patterns.namesake_member pMember) other).1
    obtain rfl : t'.namesake c = d :=
      trees.second.eq_of_name (trees.namesake_member known) standing ((trees.namesake_named known).trans same)
    exact namesake_maps cheapest trees patterns pMember found other

end Searches

/-- Whatever the order of children in tree and pattern, both are built and the searches find the same. -/
theorem search_rearranged (cheapest : assigner.Cheapest) {limits limits' : Limits} {ds ds' es es' : List Descriptor}
    (trees : List.Forall₂ Rearranged ds ds') (patterns : List.Forall₂ Rearranged es es')
    (builtT : build limits ds = .ok (.built t)) (builtU : build limits' es = .ok (.built u)) :
    ∃ t' u', build limits ds' = .ok (.built t') ∧ build limits' es' = .ok (.built u') ∧
      ∀ p ∈ u.nodes, ∃ p', u'.node? p.name = some p' ∧
        SameFindings (t.findSubtree assigner (u.branch p)) (t'.findSubtree assigner (u'.branch p')) := by
  obtain ⟨t', ranT, thereT, backT⟩ := build_rearranged trees builtT
  obtain ⟨u', ranU, thereU, backU⟩ := build_rearranged patterns builtU
  have first : Siblings t t' := ⟨⟨_, _, builtT⟩, ⟨_, _, ranT⟩, thereT, backT⟩
  have second : Siblings u u' := ⟨⟨_, _, builtU⟩, ⟨_, _, ranU⟩, thereU, backU⟩
  refine ⟨t', u', ranT, ranU, fun p member => ⟨u'.namesake p, ?_, findings_same cheapest first second member⟩⟩
  exact (namesake_spec second.second thereU member).2.2

/-- A panel with a lamp and a meter, which has two hands of the same type. -/
def panel : List Descriptor :=
  [{ name := "panel", type := "object", children := some ["meter", "lamp"] },
    { name := "meter", type := "object", parent := "panel", children := some ["left", "right"] },
    { name := "left", type := "double", parent := "meter" },
    { name := "right", type := "double", parent := "meter" },
    { name := "lamp", type := "boolean", parent := "panel" }]

/-- The descriptors with all children in the opposite order. -/
def turned (ds : List Descriptor) : List Descriptor :=
  ds.map fun d => { d with children := d.children.map List.reverse }

theorem turned_rearranged (ds : List Descriptor) : List.Forall₂ Rearranged ds (turned ds) := by
  refine List.forall₂_map_right_iff.mpr (List.forall₂_same.mpr fun d _ => ⟨rfl, ?_⟩)
  cases children : d.children with
  | none => simp [Descriptor.childNames, children]
  | some names => simp [Descriptor.childNames, children]

/-- Turned about, the panel has the same meter in it, which looks like a gauge that was turned about in the same two
ways. -/
theorem turned_searched : Assigner.serving.Cheapest ∧ List.Forall₂ Rearranged panel (turned panel) ∧
    List.Forall₂ Rearranged gauge (turned gauge) ∧
    ∃ t u, build {} panel = .ok (.built t) ∧ build {} gauge = .ok (.built u) ∧
      (t.findSubtree .serving (u.branch u.root)).map (fun hit => (hit.node.name, hit.maps.length)) =
        [(("meter" : Text), 2)] ∧
      ∃ t' u', build {} (turned panel) = .ok (.built t') ∧ build {} (turned gauge) = .ok (.built u') ∧
        ∀ p ∈ u.nodes, ∃ p', u'.node? p.name = some p' ∧
          SameFindings (t.findSubtree .serving (u.branch p)) (t'.findSubtree .serving (u'.branch p')) := by
  have computed : ((build {} gauge).toOption.bind Outcome.tree?).bind (fun u =>
      ((build {} panel).toOption.bind Outcome.tree?).map fun t =>
        (plainFind t (u.branch u.root)).map fun hit => (hit.node.name, hit.maps.length)) =
          some [(("meter" : Text), 2)] := by
    simp only [plainFind, plainMatch_eq_fills]
    decide +kernel
  obtain ⟨u, ranU, computed⟩ := Option.bind_eq_some_iff.mp computed
  obtain ⟨t, ranT, found⟩ := Option.map_eq_some_iff.mp computed
  have ranU := ok_of_tree ranU
  have ranT := ok_of_tree ranT
  have builtU : u.Built := ⟨_, _, ranU⟩
  have builtT : t.Built := ⟨_, _, ranT⟩
  have cheapest := Assigner.serving_cheapest
  rw [← findSubtree_eq_plainFind cheapest builtT builtU builtU.root_member] at found
  have panels := turned_rearranged panel
  have gauges := turned_rearranged gauge
  exact ⟨cheapest, panels, gauges, t, u, ranT, ranU, found, search_rearranged cheapest panels gauges ranT ranU⟩

end PayloadSchema.SchemaTree
