import PayloadSchema.Proofs.Matching.Isomorphisms
import PayloadSchema.Proofs.Matching.SearchNeutrality

/-! A search finds exactly the subtrees that are isomorphic to the pattern, each with one map for every isomorphism,
and it lists them as the plain search does. The filters on maps have nothing to do. -/
namespace PayloadSchema.Correspondence

variable {ms : List Correspondence}

theorem distinct_eq {seen : Std.HashSet Correspondence} (apart : ms.Pairwise fun m n => ¬ m.Perm n)
    (fresh : ∀ m ∈ ms, seen.contains (sorted m) = false) : distinct seen ms = ms := by
  induction ms generalizing seen with
  | nil => rfl
  | cons m rest ih =>
    obtain ⟨differ, others⟩ := List.pairwise_cons.mp apart
    have kept : distinct (seen.insert (sorted m)) rest = rest := by
      apply ih others
      intro n member
      rw [Std.HashSet.contains_insert, fresh n (List.mem_cons_of_mem m member), Bool.or_false, beq_eq_false_iff_ne]
      intro same
      have forms : (sorted m).Perm m := List.mergeSort_perm m _
      exact differ n member (forms.symm.trans (same ▸ List.mergeSort_perm n _))
    simp only [distinct, fresh m List.mem_cons_self, Bool.false_eq_true, if_false, kept]

/-- Maps of one size of which no two have the same entries all stay. -/
theorem maximalUnique_eq {size : Nat} (apart : ms.Pairwise fun m n => ¬ m.Perm n)
    (sizes : ∀ m ∈ ms, m.length = size) : maximalUnique ms = ms := by
  have largest : ∀ m ∈ ms, (ms.map List.length).max?.getD 0 ≤ m.length := by
    intro m member
    cases found : (ms.map List.length).max? with
    | none => exact Nat.zero_le _
    | some k =>
      obtain ⟨n, listed, rfl⟩ := List.mem_map.mp (List.max?_mem found)
      rw [Option.getD_some, sizes n listed, sizes m member]
  have all : (ms.filter fun m => (ms.map List.length).max?.getD 0 ≤ m.length) = ms :=
    List.filter_eq_self.mpr fun m member => decide_eq_true (largest m member)
  rw [maximalUnique, all]
  exact distinct_eq apart fun m _ => Std.HashSet.contains_empty

end PayloadSchema.Correspondence

namespace PayloadSchema.Matching
open Branch

variable {f g : Node → Node} {c p : Branch} {m n : Correspondence}

theorem rooted_eq (distinct : p.Distinct) (represents : Represents f p m) : rooted c p m = (p.name, c.name) :: m := by
  apply Assoc.update_of_fresh
  have keys : (m.map Prod.fst).Perm (p.beneath.map (·.name)) := by
    have listed := represents.map Prod.fst
    rwa [List.map_map] at listed
  rw [Distinct, preorder_eq, List.map_cons] at distinct
  rw [List.singleton_append, List.map_cons]
  exact (keys.cons p.name).nodup_iff.mpr distinct

/-- With its root a map has the entries of all nodes. -/
theorem rooted_perm (distinct : p.Distinct) (aligned : Aligned f c p) (represents : Represents f p m) :
    (rooted c p m).Perm (p.preorder.map (entry f)) := by
  have root : (p.name, c.name) = entry f p.node := by
    rw [entry, aligned_root aligned]
    rfl
  rw [rooted_eq distinct represents, preorder_eq, List.map_cons, ← root]
  exact represents.cons _

variable (cDistinct : c.Distinct) (pDistinct : p.Distinct)
include cDistinct pDistinct

theorem rooted_apart : ((maps c p).map (rooted c p)).Pairwise fun m n => ¬ m.Perm n := by
  refine List.pairwise_map.mpr ((maps_apart c p cDistinct pDistinct).imp_of_mem fun first second differ same => ?_)
  obtain ⟨f, _, left⟩ := maps_sound c p pDistinct _ first
  obtain ⟨g, _, right⟩ := maps_sound c p pDistinct _ second
  rw [rooted_eq pDistinct left, rooted_eq pDistinct right] at same
  exact differ same.cons_inv

/-- Neither filter leaves out a map that was found. -/
theorem maximalUnique_rooted :
    Correspondence.maximalUnique ((maps c p).map (rooted c p)) = (maps c p).map (rooted c p) := by
  have sizes : ∀ m ∈ (maps c p).map (rooted c p), m.length = p.preorder.length := by
    intro m listed
    obtain ⟨n, found, rfl⟩ := List.mem_map.mp listed
    obtain ⟨f, aligned, represents⟩ := maps_sound c p pDistinct n found
    rw [(rooted_perm pDistinct aligned represents).length_eq, List.length_map]
  exact Correspondence.maximalUnique_eq (rooted_apart cDistinct pDistinct) sizes

end PayloadSchema.Matching

namespace PayloadSchema.SchemaTree
open Arena Branch Matching Matcher

variable {t u : SchemaTree} {c p x : Node} {f g : Node → Node} {m : Correspondence} {assigner : Assigner}

theorem plainMatch_eq_some {d b : Branch} {ms : List Correspondence} (found : plainMatch d b = some ms) :
    maps d b = ms := by
  rw [maps, found, Option.getD_some]

theorem plainFind_nodes (t : SchemaTree) (pattern : Branch) :
    (plainFind t pattern).map (·.node) = t.preorder.filter fun n => (plainMatch (t.branch n) pattern).isSome := by
  rw [plainFind, List.map_filterMap]
  induction t.preorder with
  | nil => rfl
  | cons n rest ih =>
    cases answered : plainMatch (t.branch n) pattern with
    | none => simpa [answered] using ih
    | some maps => simpa [answered] using ih

theorem mem_plainFind {pattern : Branch} {hit : Match} (listed : hit ∈ plainFind t pattern) :
    hit.node ∈ t.preorder ∧
      hit.maps = (maps (t.branch hit.node) pattern).map (rooted (t.branch hit.node) pattern) := by
  obtain ⟨n, member, found⟩ := List.mem_filterMap.mp listed
  obtain ⟨ms, answered, rfl⟩ := Option.map_eq_some_iff.mp found
  exact ⟨member, by rw [plainMatch_eq_some answered]⟩

/-- Looking at types first and filtering maps change nothing. -/
theorem plainAmong_eq (builtT : t.Built) (builtU : u.Built) (member : p ∈ u.nodes) :
    plainAmong (u.branch p) (candidates t (u.branch p)) = plainFind t (u.branch p) := by
  rw [candidates, plainAmong, plainFind, List.filterMap_map, List.filterMap_filter]
  apply List.filterMap_congr
  intro n listed
  cases answered : plainMatch (t.branch n) (u.branch p) with
  | none => simp [answered]
  | some ms =>
    have kind : n.kind = (u.branch p).kind := by
      have kinds := kind_of_match (Option.isSome_of_eq_some answered)
      rwa [Branch.kind, node_branch] at kinds
    have whole := maximalUnique_rooted (builtT.branch_distinct (builtT.mem_preorder.mp listed))
      (builtU.branch_distinct member)
    rw [plainMatch_eq_some answered] at whole
    simp [answered, kind, whole, node_branch]

/-- Whatever is remembered, a search finds what the plain search finds. -/
theorem find_eq_plainFind (cheapest : assigner.Cheapest) (builtT : t.Built) (builtU : u.Built) (member : p ∈ u.nodes)
    (matcher : Matcher) (same : matcher.tree = t) :
    (matcher.find assigner (u.branch p)).1 = plainFind t (u.branch p) :=
  (find_eq_plainAmong cheapest builtT builtU member matcher same).trans (plainAmong_eq builtT builtU member)

theorem findSubtree_eq_plainFind (cheapest : assigner.Cheapest) (builtT : t.Built) (builtU : u.Built)
    (member : p ∈ u.nodes) : t.findSubtree assigner (u.branch p) = plainFind t (u.branch p) :=
  find_eq_plainFind cheapest builtT builtU member (Matcher.mk t ∅) rfl

theorem tree_of_searches (assigner : Assigner) (earlier : List Branch) (matcher : Matcher) :
    (earlier.foldl (fun m b => (m.find assigner b).2) matcher).tree = matcher.tree := by
  induction earlier generalizing matcher with
  | nil => rfl
  | cons b rest ih => exact ih (matcher.find assigner b).2

/-- Whatever was searched for before, a search finds what the plain search finds, in the same order, and nothing of it
would be filtered out. -/
theorem find_after_searches (cheapest : assigner.Cheapest) (builtT : t.Built) (builtU : u.Built) (member : p ∈ u.nodes)
    (earlier : List Branch) :
    ((earlier.foldl (fun m b => (m.find assigner b).2) (Matcher.mk t ∅)).find assigner (u.branch p)).1 =
        plainFind t (u.branch p) ∧
      ∀ hit ∈ plainFind t (u.branch p), Correspondence.maximalUnique hit.maps = hit.maps := by
  constructor
  · exact find_eq_plainFind cheapest builtT builtU member _ (tree_of_searches assigner earlier _)
  · intro hit listed
    obtain ⟨place, whole⟩ := mem_plainFind listed
    rw [whole]
    exact maximalUnique_rooted (builtT.branch_distinct (builtT.mem_preorder.mp place)) (builtU.branch_distinct member)

/-- A gauge with two readings of the same type, either of which may stand for the other. -/
def gauge : List Descriptor :=
  [{ name := "gauge", type := "object", children := some ["low", "high"] },
    { name := "high", type := "double", parent := "gauge" },
    { name := "low", type := "double", parent := "gauge" }]

/-- What a gauge has in common with itself: its readings stay or change places. -/
def gaugeMaps : List Correspondence :=
  [[("gauge", "gauge"), ("low", "low"), ("high", "high")], [("gauge", "gauge"), ("high", "low"), ("low", "high")]]

theorem gauge_plain : ∃ t, build {} gauge = .ok (.built t) ∧
    (plainFind t (t.branch t.root)).map (fun hit => (hit.node.name, hit.maps)) = [(("gauge" : Text), gaugeMaps)] := by
  have searched : ((build {} gauge).toOption.bind Outcome.tree?).map (fun t =>
      (plainFind t (t.branch t.root)).map fun hit => (hit.node.name, hit.maps)) =
        some [(("gauge" : Text), gaugeMaps)] := by
    simp only [plainFind, plainMatch_eq_fills]
    decide +kernel
  obtain ⟨t, found, listed⟩ := Option.map_eq_some_iff.mp searched
  exact ⟨t, ok_of_tree found, listed⟩

theorem gauge_searched : Assigner.serving.Cheapest ∧ ∃ t : SchemaTree, t.Built ∧ t.root ∈ t.nodes ∧
    (([t.branch t.root, .mk t.root []].foldl (fun m b => (m.find .serving b).2) (Matcher.mk t ∅)).find .serving
      (t.branch t.root)).1.map (fun hit => (hit.node.name, hit.maps)) = [(("gauge" : Text), gaugeMaps)] := by
  obtain ⟨t, ran, listed⟩ := gauge_plain
  have built : t.Built := ⟨_, _, ran⟩
  have same := (find_after_searches Assigner.serving_cheapest built built built.root_member
    [t.branch t.root, .mk t.root []]).1
  exact ⟨Assigner.serving_cheapest, t, built, built.root_member, by rw [same, listed]⟩

/-- A map that has just the entries of a function on the nodes of a subtree, each once. -/
def Records (u : SchemaTree) (p : Node) (f : Node → Node) (m : Correspondence) : Prop :=
  (m.map Prod.fst).Nodup ∧ ∀ e, e ∈ m ↔ ∃ x ∈ u.subtree p, e = (x.name, (f x).name)

theorem records_iff (builtU : u.Built) (member : p ∈ u.nodes) :
    Records u p f m ↔ m.Perm ((u.branch p).preorder.map (entry f)) := by
  have names : (((u.branch p).preorder.map (entry f)).map Prod.fst).Nodup := by
    rw [List.map_map]
    exact builtU.branch_distinct member
  have entries : ∀ e, e ∈ (u.branch p).preorder.map (entry f) ↔ ∃ x ∈ u.subtree p, e = (x.name, (f x).name) := by
    intro e
    rw [List.mem_map]
    exact exists_congr fun x => and_congr (builtU.mem_subtree member).symm eq_comm
  constructor
  · rintro ⟨keys, listed⟩
    apply (List.perm_ext_iff_of_nodup (.of_map _ keys) (.of_map _ names)).mpr
    intro e
    rw [listed, entries]
  · intro perm
    refine ⟨(perm.map Prod.fst).nodup_iff.mpr names, fun e => ?_⟩
    rw [perm.mem_iff, entries]

/-- What is found are the nodes with a subtree isomorphic to that of the pattern, in preorder, and for each of them
one map for every isomorphism. -/
structure ExactMatches (assigner : Assigner) (u t : SchemaTree) (p : Node) (found : List Match) : Prop where
  ordered : (found.map (·.node)).Sublist t.preorder
  once : (found.map (·.node)).Nodup
  matched : ∀ c, c ∈ found.map (·.node) ↔ c ∈ t.nodes ∧ ∃ f, Isomorphism u t p c f
  recorded : ∀ hit ∈ found, ∀ m ∈ hit.maps, ∃ f, Isomorphism u t p hit.node f ∧ Records u p f m
  listed : ∀ hit ∈ found, ∀ f, Isomorphism u t p hit.node f →
    ∃! i : Nat, ∃ m, hit.maps[i]? = some m ∧ Records u p f m
  /-- Different isomorphisms have different maps. -/
  faithful : ∀ hit ∈ found, ∀ f g, Isomorphism u t p hit.node f → Isomorphism u t p hit.node g →
    ∀ m, Records u p f m → Records u p g m → Set.EqOn f g (u.subtree p)
  covering : ∀ hit ∈ found, ∀ m ∈ hit.maps, (∀ x ∈ u.subtree p, x.name ∈ m.map Prod.fst) ∧ (m.map Prod.snd).Nodup
  /-- At every step of the search the filters leave the maps that were found as they are. -/
  unfiltered : ∀ before c after raw, candidates t (u.branch p) = before ++ c :: after →
    ((matchPair assigner c (u.branch p)).run ((findAmong assigner (u.branch p) before).run ∅).2).1 = some raw →
    Correspondence.maximalUnique (raw.map (rooted c (u.branch p))) = raw.map (rooted c (u.branch p))

section Exactness
variable (builtT : t.Built) (builtU : u.Built) (member : p ∈ u.nodes)
include builtT builtU member

theorem matched_iff_isomorphism (known : c ∈ t.nodes) :
    (plainMatch (t.branch c) (u.branch p)).isSome ↔ ∃ f, Isomorphism u t p c f := by
  rw [Matching.matched_iff (builtU.branch_distinct member)]
  exact exists_congr fun f => (isomorphism_iff builtU builtT member known).symm

/-- Every map of a match records an isomorphism. -/
theorem rooted_records (known : c ∈ t.nodes)
    (listed : m ∈ (maps (t.branch c) (u.branch p)).map (rooted (t.branch c) (u.branch p))) :
    ∃ f, Isomorphism u t p c f ∧ Records u p f m := by
  have distinct := builtU.branch_distinct member
  obtain ⟨n, found, rfl⟩ := List.mem_map.mp listed
  obtain ⟨f, aligned, represents⟩ := maps_sound _ _ distinct n found
  refine ⟨f, (isomorphism_iff builtU builtT member known).mpr aligned, ?_⟩
  exact (records_iff builtU member).mpr (rooted_perm distinct aligned represents)

/-- Every isomorphism is recorded in one place. -/
theorem recorded_once (known : c ∈ t.nodes) (iso : Isomorphism u t p c f) : ∃! i : Nat, ∃ m,
    ((maps (t.branch c) (u.branch p)).map (rooted (t.branch c) (u.branch p)))[i]? = some m ∧ Records u p f m := by
  have distinct := builtU.branch_distinct member
  have aligned := (isomorphism_iff builtU builtT member known).mp iso
  obtain ⟨m, found, represents⟩ := maps_complete aligned distinct
  have records := (records_iff builtU member).mpr (rooted_perm distinct aligned represents)
  refine unique_place (rooted_apart (builtT.branch_distinct known) distinct) ?_ (List.mem_map_of_mem found) records
  intro first second left right
  exact ((records_iff builtU member).mp left).trans ((records_iff builtU member).mp right).symm

theorem isomorphism_eqOn (known : c ∈ t.nodes) (first : Isomorphism u t p c f) (second : Isomorphism u t p c g)
    (left : Records u p f m) (right : Records u p g m) : Set.EqOn f g (u.subtree p) := by
  intro x inside
  rw [builtU.mem_subtree member] at inside
  have alignedF := (isomorphism_iff builtU builtT member known).mp first
  have alignedG := (isomorphism_iff builtU builtT member known).mp second
  have same := ((records_iff builtU member).mp left).symm.trans ((records_iff builtU member).mp right)
  have root : entry f (u.branch p).node = entry g (u.branch p).node := by
    rw [entry, entry, aligned_root alignedF, aligned_root alignedG]
  rw [preorder_eq, List.map_cons, List.map_cons, root] at same
  exact aligned_agree (builtT.branch_distinct known) (builtU.branch_distinct member) alignedF alignedG same.cons_inv
    x inside

/-- A map that records an isomorphism names every node of the pattern and no node twice. -/
theorem records_covering (known : c ∈ t.nodes) (iso : Isomorphism u t p c f) (records : Records u p f m) :
    (∀ x ∈ u.subtree p, x.name ∈ m.map Prod.fst) ∧ (m.map Prod.snd).Nodup := by
  constructor
  · intro x inside
    exact List.mem_map.mpr ⟨_, (records.2 _).mpr ⟨x, inside, rfl⟩, rfl⟩
  · have aligned := (isomorphism_iff builtU builtT member known).mp iso
    have images := (aligned_preorder aligned).map (·.name)
    have values := ((records_iff builtU member).mp records).map Prod.snd
    rw [List.map_map] at images values
    exact (values.trans images).nodup_iff.mpr (builtT.branch_distinct known)

theorem maps_unfiltered (cheapest : assigner.Cheapest) {before after : List Branch} {d : Branch}
    {raw : List Correspondence} (among : candidates t (u.branch p) = before ++ d :: after)
    (ran : ((matchPair assigner d (u.branch p)).run ((findAmong assigner (u.branch p) before).run ∅).2).1 = some raw) :
    Correspondence.maximalUnique (raw.map (rooted d (u.branch p))) = raw.map (rooted d (u.branch p)) := by
  have known : ∀ b ∈ before ++ d :: after, ∃ n ∈ t.nodes, t.branch n = b :=
    fun b listed => candidate_known builtT (among ▸ listed)
  have pattern : ∃ n ∈ u.nodes, u.branch n = u.branch p := ⟨p, member, rfl⟩
  have earlier := yields_findAmong cheapest (branches_family builtT) (branches_family builtU) pattern
    fun b listed => known b (List.mem_append_left _ listed)
  obtain ⟨n, place, same⟩ := known d (List.mem_append_right _ List.mem_cons_self)
  have answered :=
    yields_matchPair cheapest (branches_family builtT) (branches_family builtU) d _ ⟨n, place, same⟩ pattern
  rw [(answered _ (earlier ∅ empty_agrees).2).1] at ran
  rw [← plainMatch_eq_some ran]
  exact maximalUnique_rooted (same ▸ builtT.branch_distinct place) (builtU.branch_distinct member)

/-- A search in a built tree finds exactly what looks like the pattern, with exactly its isomorphisms. -/
theorem findSubtree_exact (cheapest : assigner.Cheapest) :
    ExactMatches assigner u t p (t.findSubtree assigner (u.branch p)) := by
  have found : t.findSubtree assigner (u.branch p) = plainFind t (u.branch p) :=
    findSubtree_eq_plainFind cheapest builtT builtU member
  have known : ∀ hit ∈ plainFind t (u.branch p), hit.node ∈ t.nodes :=
    fun hit listed => builtT.mem_preorder.mp (mem_plainFind listed).1
  have ordered : ((plainFind t (u.branch p)).map (·.node)).Sublist t.preorder := by
    rw [plainFind_nodes]
    exact List.filter_sublist
  rw [found]
  exact {
    ordered := ordered
    once := builtT.preorder_nodup.sublist ordered
    matched := fun c => by
      rw [plainFind_nodes, List.mem_filter, builtT.mem_preorder]
      exact and_congr_right fun known => matched_iff_isomorphism builtT builtU member known
    recorded := fun hit listed m kept =>
      rooted_records builtT builtU member (known hit listed) ((mem_plainFind listed).2 ▸ kept)
    listed := fun hit listed f iso => by
      rw [(mem_plainFind listed).2]
      exact recorded_once builtT builtU member (known hit listed) iso
    faithful := fun hit listed f g first second m =>
      isomorphism_eqOn builtT builtU member (known hit listed) first second
    covering := fun hit listed m kept => by
      rw [(mem_plainFind listed).2] at kept
      obtain ⟨f, iso, records⟩ := rooted_records builtT builtU member (known hit listed) kept
      exact records_covering builtT builtU member (known hit listed) iso records
    unfiltered := fun before d after raw => maps_unfiltered builtT builtU member cheapest }

end Exactness

theorem gauge_found : Assigner.serving.Cheapest ∧ ∃ t : SchemaTree, t.Built ∧ t.root ∈ t.nodes ∧
    ExactMatches .serving t t t.root (t.findSubtree .serving (t.branch t.root)) ∧
    (t.findSubtree .serving (t.branch t.root)).map (fun hit => (hit.node.name, hit.maps)) =
      [(("gauge" : Text), gaugeMaps)] := by
  obtain ⟨t, ran, listed⟩ := gauge_plain
  have built : t.Built := ⟨_, _, ran⟩
  have found := findSubtree_eq_plainFind Assigner.serving_cheapest built built built.root_member
  exact ⟨Assigner.serving_cheapest, t, built, built.root_member,
    findSubtree_exact built built built.root_member Assigner.serving_cheapest, by rw [found, listed]⟩

end PayloadSchema.SchemaTree
