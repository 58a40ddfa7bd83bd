import PayloadSchema.Proofs.Matching.PlainSearch

/-! The maps that the plain search lists for two branches. Every map comes from an arrangement, which pairs the
children, and a choice of one map for each pair. -/
namespace PayloadSchema.Matching
open Arrangements

section Choices
variable {α : Type} {R : α → α → Prop}

theorem mem_choices {xss : List (List α)} {ys : List α} : ys ∈ choices xss ↔ List.Forall₂ (· ∈ ·) ys xss := by
  induction xss generalizing ys with
  | nil => simp [choices]
  | cons xs rest ih =>
    simp only [choices, List.mem_flatMap, List.mem_map, List.forall₂_cons_right_iff, ih]
    constructor
    · rintro ⟨x, member, behind, chosen, rfl⟩
      exact ⟨x, behind, member, chosen, rfl⟩
    · rintro ⟨x, behind, member, chosen, rfl⟩
      exact ⟨x, member, behind, chosen, rfl⟩

/-- Choices from lists of unrelated elements differ by unrelated elements somewhere. -/
theorem choices_apart {xss : List (List α)} (apart : ∀ xs ∈ xss, xs.Pairwise fun x y => ¬ R x y) :
    (choices xss).Pairwise fun a b => ¬ List.Forall₂ R a b := by
  induction xss with
  | nil => exact List.pairwise_singleton _ _
  | cons xs rest ih =>
    rw [choices, List.pairwise_flatMap]
    refine ⟨fun x _ => ?_, (apart xs List.mem_cons_self).imp ?_⟩
    · have behind := ih fun ys member => apart ys (List.mem_cons_of_mem xs member)
      refine List.pairwise_map.mpr (behind.imp fun differ same => differ ?_)
      exact (List.forall₂_cons.mp same).2
    · intro x y differ a first b second same
      obtain ⟨a', _, rfl⟩ := List.mem_map.mp first
      obtain ⟨b', _, rfl⟩ := List.mem_map.mp second
      exact differ (List.forall₂_cons.mp same).1

end Choices

/-- The maps of two branches, none if they do not match. -/
def maps (c p : Branch) : List Correspondence := (plainMatch c p).getD []

theorem answer_getD (found : List Correspondence) : (answer found).getD [] = found := by
  cases found <;> rfl

theorem plainMatch_isSome_iff {c p : Branch} : (plainMatch c p).isSome ↔ maps c p ≠ [] := by
  have listed : ∀ found, (answer found).isSome ↔ (answer found).getD [] ≠ [] := fun found => by
    cases found <;> simp [answer]
  rw [maps, plainMatch_eq]
  split
  · split
    · simp
    · exact listed _
  · simp

/-- The children of two branches, each candidate child with the pattern child it is paired with. -/
def pairing (c p : Branch) (order : List Nat) : List (Branch × Branch) := c.children.zip (arranged p.children order)

/-- The entries of paired children. -/
def level (pairs : List (Branch × Branch)) : Correspondence := pairs.map fun e => (e.2.name, e.1.name)

/-- The entries of paired children with those of some maps put after them. -/
def merged (pairs : List (Branch × Branch)) (choice : List Correspondence) : Correspondence :=
  choice.foldl Assoc.update (Assoc.ofPairs (level pairs))

variable {c p : Branch} {order : List Nat}

theorem pairing_candidates (size : c.children.length = p.children.length)
    (perm : order.Perm (List.range p.children.length)) : (pairing c p order).map Prod.fst = c.children := by
  refine List.map_fst_zip (Nat.le_of_eq ?_)
  rw [arranged_length (order_bounds perm), order_length perm, size]

theorem pairing_patterns (size : c.children.length = p.children.length)
    (perm : order.Perm (List.range p.children.length)) :
    (pairing c p order).map Prod.snd = arranged p.children order := by
  refine List.map_snd_zip (Nat.le_of_eq ?_)
  rw [arranged_length (order_bounds perm), order_length perm, size]

theorem pairing_children (size : c.children.length = p.children.length)
    (perm : order.Perm (List.range p.children.length)) {e : Branch × Branch} (member : e ∈ pairing c p order) :
    e.1 ∈ c.children ∧ e.2 ∈ p.children := by
  constructor
  · exact pairing_candidates size perm ▸ List.mem_map_of_mem member
  · apply (arranged_perm perm).subset
    exact pairing_patterns size perm ▸ List.mem_map_of_mem member

/-- The entries and the lists of maps that an arrangement looks up are those of its pairs. -/
theorem looked_up (candidates : List Branch) {patterns : List Branch} (bounds : ∀ i ∈ order, i < patterns.length) :
    ((candidates.zip order).filterMap fun entry => (patterns[entry.2]?).map fun p => (p.name, entry.1.name)) =
        level (candidates.zip (arranged patterns order)) ∧
      (((answers candidates patterns).zip order).map fun entry => ((entry.1[entry.2]?).getD none).getD []) =
        (candidates.zip (arranged patterns order)).map fun e => maps e.1 e.2 := by
  induction candidates generalizing order with
  | nil => simp [answers, level]
  | cons c rest ih =>
    cases order with
    | nil => simp [arranged, level]
    | cons i later =>
      obtain ⟨p, found⟩ := exists_at (bounds i List.mem_cons_self)
      obtain ⟨entries, lists⟩ := ih fun j member => bounds j (List.mem_cons_of_mem i member)
      rw [arranged_cons found]
      constructor
      · simpa [found, level] using entries
      · simpa [answers, found, maps] using lists

theorem mapsOf_eq (perm : order.Perm (List.range p.children.length)) :
    mapsOf c.children p.children (answers c.children p.children) order =
      (choices ((pairing c p order).map fun e => maps e.1 e.2)).map (merged (pairing c p order)) := by
  obtain ⟨entries, lists⟩ := looked_up c.children (order_bounds perm)
  simp only [mapsOf, levelMap, entries, lists]
  rfl

/-- All maps, arrangement by arrangement and choice by choice. -/
theorem maps_eq (c p : Branch) :
    maps c p =
      if c.kind = p.kind ∧ c.children.length = p.children.length then
        (orderings p.children.length).flatMap fun order =>
          (choices ((pairing c p order).map fun e => maps e.1 e.2)).map (merged (pairing c p order))
      else [] := by
  rw [maps, plainMatch_eq]
  by_cases same : c.kind = p.kind ∧ c.children.length = p.children.length
  · rw [if_pos same, if_pos same]
    cases leaf : p.children with
    | nil =>
      have barren : c.children = [] := List.eq_nil_of_length_eq_zero (by rw [same.2, leaf]; rfl)
      simp [pairing, barren, orderings, choices, merged, level, Assoc.ofPairs, Assoc.update]
    | cons first rest =>
      rw [← leaf, if_neg (by simp [leaf]), answer_getD]
      refine flatMap_filter (fun order member _ => mapsOf_eq (mem_orderings.mp member))
        fun order member refused => ?_
      have perm := mem_orderings.mp member
      refine List.map_eq_nil_iff.mpr (List.eq_nil_iff_forall_not_mem.mpr fun choice chosen => ?_)
      have each := (List.forall₂_map_right_iff.mp (mem_choices.mp chosen)).flip
      have matched := (allMatch_iff (order_bounds perm) ((order_length perm).trans same.2.symm)).mpr
        (List.forall₂_iff_zip.mpr ⟨?_, ?_⟩)
      · simp [refused] at matched
      · rw [arranged_length (order_bounds perm), order_length perm, same.2]
      · intro d q member
        obtain ⟨m, _, listed⟩ := forall₂_partner each member
        exact plainMatch_isSome_iff.mpr (List.ne_nil_of_mem listed)
  · rw [if_neg same, if_neg same]
    rfl

theorem mem_maps {m : Correspondence} :
    m ∈ maps c p ↔ (c.kind = p.kind ∧ c.children.length = p.children.length) ∧
      ∃ order, order.Perm (List.range p.children.length) ∧
        ∃ choice, List.Forall₂ (fun n e => n ∈ maps e.1 e.2) choice (pairing c p order) ∧
          merged (pairing c p order) choice = m := by
  rw [maps_eq]
  by_cases same : c.kind = p.kind ∧ c.children.length = p.children.length
  · simp [same, mem_orderings, mem_choices]
  · simp [same]

end PayloadSchema.Matching
