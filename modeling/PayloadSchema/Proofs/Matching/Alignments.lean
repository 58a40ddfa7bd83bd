import PayloadSchema.Proofs.Matching.PlainMaps
import PayloadSchema.Proofs.Tree.Branches

/-! What the maps of two branches stand for. A function on nodes aligns two branches when it takes root to root and
pairs off the children so that it aligns every pair. Every map is that of an aligning function, every aligning
function has a map, and no map is listed twice, provided that names are not repeated. -/
namespace PayloadSchema.Matching
open Arrangements Branch

variable {f g : Node → Node} {c p : Branch} {es : List (Branch × Branch)} {choice : List Correspondence}
  {m : Correspondence} {e : Branch × Branch} {order : List Nat}

/-- A function takes the nodes of a pattern to those of a candidate, level by level. -/
inductive Aligned (f : Node → Node) : Branch → Branch → Prop where
  | mk {c p : Branch} (es : List (Branch × Branch)) (candidates : es.map Prod.fst = c.children)
      (patterns : (es.map Prod.snd).Perm p.children) (root : f p.node = c.node) (kind : c.kind = p.kind)
      (below : ∀ e ∈ es, Aligned f e.1 e.2) : Aligned f c p

theorem aligned_root (aligned : Aligned f c p) : f p.node = c.node := by
  cases aligned with
  | mk _ _ _ root _ _ => exact root

theorem aligned_kind (aligned : Aligned f c p) : c.kind = p.kind := by
  cases aligned with
  | mk _ _ _ _ kind _ => exact kind

/-- An aligning function takes the children of the one root to those of the other. -/
theorem aligned_roots (aligned : Aligned f c p) :
    ((p.children.map (·.node)).map f).Perm (c.children.map (·.node)) := by
  cases aligned with
  | mk es candidates patterns _ _ below =>
    have images : ((es.map Prod.snd).map (·.node)).map f = (es.map Prod.fst).map (·.node) := by
      rw [List.map_map, List.map_map, List.map_map]
      exact List.map_congr_left fun e member => aligned_root (below e member)
    rw [← candidates, ← images]
    exact ((patterns.map _).map f).symm

theorem aligned_congr (aligned : Aligned f c p) (same : ∀ x ∈ p.preorder, g x = f x) : Aligned g c p := by
  induction aligned with
  | @mk c p es candidates patterns root kind _ ih =>
    rw [preorder_eq] at same
    refine .mk es candidates patterns ((same _ List.mem_cons_self).trans root) kind fun e member => ?_
    have child : e.2 ∈ p.children := patterns.subset (List.mem_map_of_mem member)
    exact ih e member fun x inside => same x (List.mem_cons_of_mem _ (mem_beneath child inside))

theorem beneath_perm (patterns : (es.map Prod.snd).Perm p.children) :
    (es.flatMap fun e => e.2.preorder).Perm p.beneath := by
  have listed := patterns.flatMap_right preorder
  rwa [List.flatMap_map] at listed

/-- An aligning function takes the nodes of the pattern to all nodes of the candidate. -/
theorem aligned_preorder (aligned : Aligned f c p) : (p.preorder.map f).Perm c.preorder := by
  induction aligned with
  | @mk c p es candidates patterns root _ _ ih =>
    rw [preorder_eq, preorder_eq, List.map_cons, root]
    apply List.Perm.cons _
    have pairs : (es.flatMap fun e => e.2.preorder.map f).Perm (es.flatMap fun e => e.1.preorder) :=
      List.Perm.flatMap_left es ih
    have candidate : c.beneath = es.flatMap fun e => e.1.preorder := by
      rw [beneath, ← candidates, List.flatMap_map]
    apply ((beneath_perm patterns).symm.map f).trans
    rw [candidate, List.map_flatMap]
    exact pairs

/-- The entry of a node under a function. -/
def entry (f : Node → Node) (x : Node) : Text × Text := (x.name, (f x).name)

/-- A map that has the entries of a function on the nodes below the root, in any order. -/
def Represents (f : Node → Node) (p : Branch) (m : Correspondence) : Prop := m.Perm (p.beneath.map (entry f))

theorem represents_congr (represents : Represents f p m) (same : ∀ x ∈ p.beneath, g x = f x) : Represents g p m := by
  refine represents.trans (.of_eq (List.map_congr_left fun x inside => ?_))
  rw [entry, entry, same x inside]

/-- A function that aligns a pair of branches, and its map. -/
def Renders (f : Node → Node) (m : Correspondence) (e : Branch × Branch) : Prop :=
  Aligned f e.1 e.2 ∧ Represents f e.2 m

theorem renders_congr (renders : Renders f m e) (same : ∀ x ∈ e.2.preorder, g x = f x) : Renders g m e :=
  ⟨aligned_congr renders.1 same, represents_congr renders.2 fun x inside => same x (mem_preorder_of_beneath inside)⟩

theorem all_aligned (each : List.Forall₂ (Renders f) choice es) : ∀ e ∈ es, Aligned f e.1 e.2 := by
  intro e member
  obtain ⟨_, _, renders⟩ := forall₂_partner each.flip member
  exact renders.1

/-- The entries of paired children and of their maps are those of a function on all nodes below. -/
theorem gathered (each : List.Forall₂ (Renders f) choice es) :
    (level es ++ choice.flatten).Perm ((es.flatMap fun e => e.2.preorder).map (entry f)) := by
  induction each with
  | nil => exact List.Perm.refl _
  | @cons m e choice es head _ ih =>
    obtain ⟨aligned, below⟩ := head
    have first : (e.2.name, e.1.name) = entry f e.2.node := by
      rw [entry, aligned_root aligned]
      rfl
    rw [List.flatMap_cons, preorder_eq, List.map_append, List.map_cons, ← first, List.flatten_cons, level,
      List.map_cons, List.cons_append, List.cons_append]
    apply List.Perm.cons _
    exact (List.perm_append_comm_assoc (level es) m choice.flatten).trans (below.append ih)

theorem merged_of_fresh (fresh : ((level es ++ choice.flatten).map Prod.fst).Nodup) :
    merged es choice = level es ++ choice.flatten := by
  have front : (([] ++ level es).map Prod.fst).Nodup := by
    rw [List.map_append] at fresh
    exact (List.nodup_append.mp fresh).1
  rw [merged, Assoc.ofPairs, Assoc.update_of_fresh front, List.nil_append, Assoc.foldl_update_of_fresh fresh]

theorem fresh_keys (distinct : p.Distinct) {entries : Correspondence}
    (perm : entries.Perm (p.beneath.map (entry f))) : (entries.map Prod.fst).Nodup := by
  refine (perm.map Prod.fst).nodup_iff.mpr ?_
  rw [List.map_map]
  exact distinct_beneath distinct

/-- Functions that align pairs without common nodes make one that aligns all of them. -/
theorem glued (each : List.Forall₂ (fun m e => ∃ f, Renders f m e) choice es)
    (apart : (es.flatMap fun e => e.2.preorder).Nodup) : ∃ f, List.Forall₂ (Renders f) choice es := by
  induction each with
  | nil => exact ⟨id, .nil⟩
  | @cons m e choice es head _ ih =>
    obtain ⟨g, renders⟩ := head
    rw [List.flatMap_cons, List.nodup_append] at apart
    obtain ⟨_, others, disjoint⟩ := apart
    obtain ⟨h, rest⟩ := ih others
    refine ⟨fun x => if x ∈ e.2.preorder then g x else h x, .cons ?_ ?_⟩
    · exact renders_congr renders fun x inside => if_pos inside
    · refine forall₂_imp_mem rest fun n d member held => renders_congr held fun x inside => if_neg fun again => ?_
      exact disjoint x again x (List.mem_flatMap.mpr ⟨d, member, inside⟩) rfl

/-- The map of an arrangement and a choice is that of a function which aligns the branches and every pair. -/
theorem merged_aligned (distinct : p.Distinct) (same : c.kind = p.kind ∧ c.children.length = p.children.length)
    (perm : order.Perm (List.range p.children.length))
    (each : List.Forall₂ (fun m e => ∃ f, Renders f m e) choice (pairing c p order)) :
    ∃ f, Renders f (merged (pairing c p order) choice) (c, p) ∧
      List.Forall₂ (Renders f) choice (pairing c p order) := by
  have patterns : ((pairing c p order).map Prod.snd).Perm p.children :=
    pairing_patterns same.2 perm ▸ arranged_perm perm
  have nodes := beneath_perm patterns
  have names := (nodes.map (·.name)).nodup_iff.mpr (distinct_beneath distinct)
  obtain ⟨h, held⟩ := glued each (.of_map _ names)
  -- The root is not below itself, so that it may be taken anywhere.
  have apart : ∀ x ∈ p.beneath, x ≠ p.node := by
    intro x inside equal
    rw [Distinct, preorder_eq, List.map_cons] at distinct
    exact (List.nodup_cons.mp distinct).1 (equal ▸ List.mem_map_of_mem inside)
  let f : Node → Node := fun x => if x = p.node then c.node else h x
  have renders : List.Forall₂ (Renders f) choice (pairing c p order) := by
    refine forall₂_imp_mem held fun n e member each => renders_congr each fun x inside => if_neg (apart x ?_)
    exact mem_beneath (pairing_children same.2 perm member).2 inside
  have entries := (gathered renders).trans (nodes.map (entry f))
  refine ⟨f, ⟨?_, ?_⟩, renders⟩
  · exact .mk _ (pairing_candidates same.2 perm) patterns (if_pos rfl) same.1 (all_aligned renders)
  · rw [merged_of_fresh (fresh_keys distinct entries)]
    exact entries

/-- Every map of two branches is that of an aligning function. -/
theorem maps_sound (c : Branch) : ∀ p, p.Distinct → ∀ m ∈ maps c p, ∃ f, Renders f m (c, p) := by
  induction c using Branch.induction with
  | mk n bs ih =>
    intro p distinct m listed
    obtain ⟨same, order, perm, choice, chosen, rfl⟩ := mem_maps.mp listed
    have each : List.Forall₂ (fun m e => ∃ f, Renders f m e) choice (pairing (.mk n bs) p order) := by
      refine forall₂_imp_mem chosen fun m e member found => ?_
      obtain ⟨candidate, pattern⟩ := pairing_children same.2 perm member
      exact ih e.1 candidate e.2 (distinct_child distinct pattern) m found
    obtain ⟨f, renders, _⟩ := merged_aligned distinct same perm each
    exact ⟨f, renders⟩

/-- Every aligning function has a map. -/
theorem maps_complete (aligned : Aligned f c p) (distinct : p.Distinct) : ∃ m ∈ maps c p, Represents f p m := by
  induction aligned with
  | @mk c p es candidates patterns root kind below ih =>
    obtain ⟨order, perm, arranges⟩ := exists_order patterns
    have paired : pairing c p order = es := by
      rw [pairing, ← candidates, arranges]
      exact (List.zip_of_prod rfl rfl).symm
    have size : c.children.length = p.children.length := by
      rw [← candidates, ← patterns.length_eq, List.length_map, List.length_map]
    have child : ∀ e ∈ es, e.2 ∈ p.children := fun e member => patterns.subset (List.mem_map_of_mem member)
    obtain ⟨choice, chosen⟩ := forall₂_choose fun e member => ih e member (distinct_child distinct (child e member))
    have nodes := beneath_perm patterns
    have each : List.Forall₂ (Renders f) choice es :=
      forall₂_imp_mem chosen fun m e member held => ⟨below e member, held.2⟩
    have entries := (gathered each).trans (nodes.map (entry f))
    refine ⟨merged es choice, mem_maps.mpr ⟨⟨kind, size⟩, order, perm, choice, ?_, by rw [paired]⟩, ?_⟩
    · rw [paired]
      exact chosen.imp fun _ _ held => held.1
    · rw [merged_of_fresh (fresh_keys distinct entries)]
      exact entries

theorem matched_iff (distinct : p.Distinct) : (plainMatch c p).isSome ↔ ∃ f, Aligned f c p := by
  rw [plainMatch_isSome_iff]
  constructor
  · intro listed
    obtain ⟨m, member⟩ := List.exists_mem_of_ne_nil _ listed
    obtain ⟨f, aligned, _⟩ := maps_sound c p distinct m member
    exact ⟨f, aligned⟩
  · rintro ⟨f, aligned⟩
    obtain ⟨m, member, _⟩ := maps_complete aligned distinct
    exact List.ne_nil_of_mem member

/-- Functions that align the same branches and have the same entries agree on all nodes. -/
theorem aligned_agree (cDistinct : c.Distinct) (pDistinct : p.Distinct) (first : Aligned f c p)
    (second : Aligned g c p) (same : (p.beneath.map (entry f)).Perm (p.beneath.map (entry g))) :
    ∀ x ∈ p.preorder, f x = g x := by
  intro x inside
  rw [preorder_eq] at inside
  rcases List.mem_cons.mp inside with rfl | inside
  · rw [aligned_root first, aligned_root second]
  · obtain ⟨y, known, equal⟩ := List.mem_map.mp (same.subset (List.mem_map_of_mem inside))
    obtain ⟨names, images⟩ := Prod.mk.inj equal
    obtain rfl := List.inj_on_of_nodup_map (distinct_beneath pDistinct) known inside names
    have listed := mem_preorder_of_beneath known
    have image := (aligned_preorder first).subset (List.mem_map_of_mem listed)
    have other := (aligned_preorder second).subset (List.mem_map_of_mem listed)
    exact List.inj_on_of_nodup_map cDistinct image other images.symm

/-- An aligning function tells how the children were arranged. -/
theorem order_eq (cDistinct : c.Distinct) (aligned : Aligned f c p) {other : List Nat}
    (size : c.children.length = p.children.length) (perm : order.Perm (List.range p.children.length))
    (again : other.Perm (List.range p.children.length))
    (first : ∀ e ∈ pairing c p order, f e.2.node = e.1.node)
    (second : ∀ e ∈ pairing c p other, f e.2.node = e.1.node) : order = other := by
  have images : ∀ {order : List Nat}, order.Perm (List.range p.children.length) →
      (∀ e ∈ pairing c p order, f e.2.node = e.1.node) →
      (arranged p.children order).map (fun b => f b.node) = c.children.map (·.node) := by
    intro order perm each
    rw [← pairing_patterns size perm, ← pairing_candidates size perm, List.map_map, List.map_map]
    exact List.map_congr_left each
  have apart : (p.children.map fun b => f b.node).Nodup := by
    have listed : (p.preorder.map f).Nodup := (aligned_preorder aligned).nodup_iff.mpr (.of_map _ cDistinct)
    rw [preorder_eq, List.map_cons] at listed
    refine listed.of_cons.sublist ?_
    have roots := (roots_sublist p).map f
    rwa [List.map_map] at roots
  exact arranged_injective apart (order_bounds perm) (order_bounds again)
    ((images perm first).trans (images again second).symm)

/-- Maps with the same entries come from the same arrangement and from choices of maps with the same entries. -/
theorem merged_apart (cDistinct : c.Distinct) (pDistinct : p.Distinct)
    (same : c.kind = p.kind ∧ c.children.length = p.children.length)
    {other : List Nat} {others : List Correspondence} (perm : order.Perm (List.range p.children.length))
    (again : other.Perm (List.range p.children.length))
    (first : List.Forall₂ (fun m e => m ∈ maps e.1 e.2) choice (pairing c p order))
    (second : List.Forall₂ (fun m e => m ∈ maps e.1 e.2) others (pairing c p other))
    (equal : (merged (pairing c p order) choice).Perm (merged (pairing c p other) others)) :
    order = other ∧ List.Forall₂ List.Perm choice others := by
  have sound : ∀ {order choice}, order.Perm (List.range p.children.length) →
      List.Forall₂ (fun m e => m ∈ maps e.1 e.2) choice (pairing c p order) →
      List.Forall₂ (fun m e => ∃ f, Renders f m e) choice (pairing c p order) := by
    intro order choice perm chosen
    apply forall₂_imp_mem chosen
    intro m e member found
    exact maps_sound e.1 e.2 (distinct_child pDistinct (pairing_children same.2 perm member).2) m found
  obtain ⟨f, ⟨aligned, represents⟩, each⟩ := merged_aligned pDistinct same perm (sound perm first)
  obtain ⟨g, ⟨alignedG, representsG⟩, eachG⟩ := merged_aligned pDistinct same again (sound again second)
  have agree := aligned_agree cDistinct pDistinct aligned alignedG (represents.symm.trans (equal.trans representsG))
  have eachF : List.Forall₂ (Renders f) others (pairing c p other) := by
    refine forall₂_imp_mem eachG fun m e member held => renders_congr held fun x inside => ?_
    exact agree x (mem_preorder_of_beneath (mem_beneath (pairing_children same.2 again member).2 inside))
  obtain rfl := order_eq cDistinct aligned same.2 perm again (fun e member => aligned_root (all_aligned each e member))
    fun e member => aligned_root (all_aligned eachF e member)
  exact ⟨rfl, forall₂_join each eachF fun m n e left right => left.2.trans right.2.symm⟩

/-- No map of two branches is listed twice, not even with its entries in another order. -/
theorem maps_apart (c : Branch) :
    ∀ p, c.Distinct → p.Distinct → (maps c p).Pairwise fun m n => ¬ m.Perm n := by
  induction c using Branch.induction with
  | mk n bs ih =>
    intro p cDistinct pDistinct
    rw [maps_eq]
    split
    · next same =>
      have chosen : ∀ {order choice}, choice ∈ choices ((pairing (.mk n bs) p order).map fun e => maps e.1 e.2) →
          List.Forall₂ (fun m e => m ∈ maps e.1 e.2) choice (pairing (.mk n bs) p order) :=
        fun listed => List.forall₂_map_right_iff.mp (mem_choices.mp listed)
      refine List.pairwise_flatMap.mpr ⟨fun order ordered => ?_, ?_⟩
      · have perm := mem_orderings.mp ordered
        have apart : (choices ((pairing (.mk n bs) p order).map fun e => maps e.1 e.2)).Pairwise
            fun a b => ¬ List.Forall₂ List.Perm a b := by
          apply choices_apart
          intro found listed
          obtain ⟨e, member, rfl⟩ := List.mem_map.mp listed
          obtain ⟨candidate, pattern⟩ := pairing_children same.2 perm member
          exact ih e.1 candidate e.2 (distinct_child cDistinct candidate) (distinct_child pDistinct pattern)
        refine List.pairwise_map.mpr (apart.imp_of_mem fun first second differ equal => differ ?_)
        exact (merged_apart cDistinct pDistinct same perm perm (chosen first) (chosen second) equal).2
      · refine (orderings_sorted _).imp_of_mem fun first second sorted m left k right equal => ?_
        obtain ⟨choice, listed, rfl⟩ := List.mem_map.mp left
        obtain ⟨others, known, rfl⟩ := List.mem_map.mp right
        have same_order := (merged_apart cDistinct pDistinct same (mem_orderings.mp first) (mem_orderings.mp second)
          (chosen listed) (chosen known) equal).1
        exact absurd same_order (ne_of_lt sorted)
    · exact List.Pairwise.nil

end PayloadSchema.Matching
