import Mathlib.Data.List.Perm.Basic
import PayloadSchema.Matching.Search
import PayloadSchema.Proofs.Matching.Feasibility

/-! The plain search, without memory and without looking ahead. It tries every arrangement of the children and keeps
those in which all pairs match. Looking at types first, asking for a pairing and masking arrangements only leave
out what would have come to nothing. -/
namespace PayloadSchema.Matching
open Arrangements

/-- Maps that are found; without any there is no match. -/
def answer : List Correspondence → Maps
  | [] => none
  | found => some found

/-- Whether every candidate child matches the pattern child it is paired with. -/
def allMatch (pairs : List (List Maps)) (order : List Nat) : Bool :=
  (pairs.zip order).all fun entry => ((entry.1[entry.2]?).getD none).isSome

section Orders
variable (orders : Nat → List (List Nat))

mutual

/-- The correspondences of two branches, found by trying at every level all orders that so many children may have. -/
def matchBy : Branch → Branch → Maps
  | .mk node children, pattern =>
    if node.kind = pattern.kind ∧ children.length = pattern.children.length then
      if pattern.children.isEmpty then some [[]]
      else
        let pairs := pairsBy pattern.children children
        answer (((orders pattern.children.length).filter (allMatch pairs)).flatMap
          (mapsOf children pattern.children pairs))
    else none
termination_by structural candidate => candidate

def pairsBy (patterns : List Branch) : List Branch → List (List Maps)
  | [] => []
  | candidate :: rest => patterns.map (matchBy candidate) :: pairsBy patterns rest
termination_by structural candidates => candidates

end

end Orders

/-- The correspondences of two branches, found by trying all permutations of the children at every level. -/
def plainMatch : Branch → Branch → Maps := matchBy orderings

/-- The matches among all nodes of a tree, each with all its maps. -/
def plainFind (t : SchemaTree) (pattern : Branch) : List Match :=
  t.preorder.filterMap fun n =>
    (plainMatch (t.branch n) pattern).map fun maps => ⟨n, maps.map (rooted (t.branch n) pattern)⟩

/-- The answers for every candidate and every pattern. -/
def answers (candidates patterns : List Branch) : List (List Maps) :=
  candidates.map fun c => patterns.map (plainMatch c)

theorem pairsBy_orderings (patterns candidates : List Branch) :
    pairsBy orderings patterns candidates = answers candidates patterns := by
  induction candidates with
  | nil => rfl
  | cons c rest ih => rw [pairsBy, ih, answers, answers, List.map_cons, plainMatch]

theorem plainMatch_eq (c p : Branch) :
    plainMatch c p =
      if c.kind = p.kind ∧ c.children.length = p.children.length then
        if p.children.isEmpty then some [[]]
        else answer (((orderings p.children.length).filter (allMatch (answers c.children p.children))).flatMap
          (mapsOf c.children p.children (answers c.children p.children)))
      else none := by
  cases c with
  | mk n bs =>
    rw [plainMatch, matchBy, pairsBy_orderings]
    rfl

/-- The permutations need not be sorted, if they are made in order. -/
theorem plainMatch_eq_fills : plainMatch = matchBy fun n => fills (fun _ _ => true) 0 (List.range n) n :=
  congrArg matchBy (funext orderings_eq)

theorem kind_of_match {c p : Branch} (found : (plainMatch c p).isSome) : c.kind = p.kind := by
  rw [plainMatch_eq] at found
  split at found
  · next same => exact same.1
  · simp at found

section Arranged
variable {α : Type}

/-- Some elements by their numbers, in the order of these. -/
def arranged (xs : List α) (order : List Nat) : List α := order.filterMap (xs[·]?)

theorem arranged_cons {xs : List α} {i : Nat} {x : α} (found : xs[i]? = some x) (order : List Nat) :
    arranged xs (i :: order) = x :: arranged xs order := List.filterMap_cons_some found

theorem arranged_range (xs : List α) : arranged xs (List.range xs.length) = xs := by
  induction xs with
  | nil => rfl
  | cons x rest ih =>
    rw [List.length_cons, List.range_succ_eq_map, arranged_cons (x := x) rfl, arranged, List.filterMap_map]
    exact congrArg (x :: ·) ih

/-- A permutation of all numbers arranges all elements. -/
theorem arranged_perm {xs : List α} {order : List Nat} (perm : order.Perm (List.range xs.length)) :
    (arranged xs order).Perm xs :=
  (perm.filterMap (xs[·]?)).trans (.of_eq (arranged_range xs))

theorem exists_at {xs : List α} {i : Nat} (bound : i < xs.length) : ∃ x, xs[i]? = some x :=
  ⟨xs[i], List.getElem?_eq_getElem bound⟩

theorem arranged_length {xs : List α} {order : List Nat} (bounds : ∀ i ∈ order, i < xs.length) :
    (arranged xs order).length = order.length := by
  induction order with
  | nil => rfl
  | cons i rest ih =>
    obtain ⟨x, found⟩ := exists_at (bounds i List.mem_cons_self)
    have behind := ih fun j member => bounds j (List.mem_cons_of_mem i member)
    rw [arranged_cons found, List.length_cons, List.length_cons, behind]

/-- Every order of some elements arranges them by some permutation of their numbers. -/
theorem exists_order {xs ys : List α} (perm : ys.Perm xs) :
    ∃ order, order.Perm (List.range xs.length) ∧ arranged xs order = ys := by
  have numbered : List.Forall₂ (fun x i => xs[i]? = some x) xs (List.range xs.length) :=
    List.forall₂_iff_get.mpr ⟨List.length_range.symm, fun i bound _ => by simp [bound]⟩
  obtain ⟨order, found, numbers⟩ := List.perm_comp_forall₂ perm numbered
  refine ⟨order, numbers, ?_⟩
  clear numbers perm
  induction found with
  | nil => rfl
  | cons first _ ih => rw [arranged_cons first, ih]

/-- Elements that a function tells apart are arranged differently by different numbers. -/
theorem arranged_injective {β : Type} {h : α → β} {xs : List α} (apart : (xs.map h).Nodup) {order other : List Nat}
    (bounds : ∀ i ∈ order, i < xs.length) (others : ∀ i ∈ other, i < xs.length)
    (same : (arranged xs order).map h = (arranged xs other).map h) : order = other := by
  induction order generalizing other with
  | nil =>
    have size := congrArg List.length same
    rw [List.length_map, List.length_map, arranged_length others] at size
    exact (List.eq_nil_of_length_eq_zero size.symm).symm
  | cons i rest ih =>
    obtain ⟨x, first⟩ := exists_at (bounds i List.mem_cons_self)
    cases other with
    | nil =>
      rw [arranged_cons first] at same
      cases same
    | cons j later =>
      obtain ⟨y, second⟩ := exists_at (others j List.mem_cons_self)
      rw [arranged_cons first, arranged_cons second, List.map_cons, List.map_cons] at same
      obtain ⟨equal, behind⟩ := List.cons.inj same
      have numbers : i = j := by
        have bound : i < (xs.map h).length := by simpa using bounds i List.mem_cons_self
        refine (List.getElem?_inj bound apart).mp ?_
        rw [List.getElem?_map, List.getElem?_map, first, second, Option.map_some, Option.map_some, equal]
      rw [numbers, ih (fun k member => bounds k (List.mem_cons_of_mem i member))
        (fun k member => others k (List.mem_cons_of_mem j member)) behind]

end Arranged

variable {candidates patterns : List Branch} {order : List Nat}

/-- An arrangement is kept when the candidates match the arranged patterns one by one. -/
theorem allMatch_iff (bounds : ∀ i ∈ order, i < patterns.length) (full : order.length = candidates.length) :
    allMatch (answers candidates patterns) order ↔
      List.Forall₂ (fun c p => (plainMatch c p).isSome) candidates (arranged patterns order) := by
  induction candidates generalizing order with
  | nil =>
    obtain rfl := List.eq_nil_of_length_eq_zero full
    simp [allMatch, arranged]
  | cons c rest ih =>
    cases order with
    | nil => simp at full
    | cons i later =>
      obtain ⟨p, found⟩ := exists_at (bounds i List.mem_cons_self)
      have behind := ih (fun j member => bounds j (List.mem_cons_of_mem i member)) (by simpa using full)
      rw [arranged_cons found, List.forall₂_cons, ← behind]
      simp [allMatch, answers, found]

theorem order_bounds {n : Nat} (perm : order.Perm (List.range n)) : ∀ i ∈ order, i < n :=
  fun _ member => List.mem_range.mp (perm.subset member)

theorem order_length {n : Nat} (perm : order.Perm (List.range n)) : order.length = n := by
  rw [perm.length_eq, List.length_range]

/-- Children that match in some arrangement have the same types, counted with repetitions. -/
theorem childRanks_of_allMatch (size : candidates.length = patterns.length)
    (perm : order.Perm (List.range patterns.length)) (matched : allMatch (answers candidates patterns) order) :
    childRanks candidates = childRanks patterns := by
  have pairs := (allMatch_iff (order_bounds perm) ((order_length perm).trans size.symm)).mp matched
  have ranks : candidates.map (·.kind.rank) = (arranged patterns order).map (·.kind.rank) := by
    rw [← List.forall₂_eq_eq_eq, List.forall₂_map_left_iff, List.forall₂_map_right_iff]
    exact pairs.imp fun c p found => congrArg NodeType.rank (kind_of_match found)
  have same : (candidates.map (·.kind.rank)).Perm (patterns.map (·.kind.rank)) :=
    ranks ▸ (arranged_perm perm).map _
  have sorted : ∀ bs, (childRanks bs).Pairwise (· ≤ ·) := fun bs =>
    (List.pairwise_mergeSort (fun a b c first second => by simp only [decide_eq_true_eq] at *; omega)
      (fun a b => by simp only [Bool.or_eq_true, decide_eq_true_eq]; omega) _).imp of_decide_eq_true
  have listed : (childRanks candidates).Perm (childRanks patterns) :=
    ((List.mergeSort_perm _ _).trans same).trans (List.mergeSort_perm _ _).symm
  exact listed.eq_of_pairwise (fun a b _ _ => Nat.le_antisymm) (sorted candidates) (sorted patterns)

/-- The mask allows an arrangement exactly when all its pairs match. -/
theorem suits_mask_iff {pairs : List (List Maps)} {n : Nat} (full : order.length = pairs.length) :
    suits (maskOf n pairs).allows 0 order ↔ allMatch pairs order := by
  rw [suits_iff, allMatch, List.all_eq_true]
  constructor
  · rintro every ⟨row, j⟩ member
    obtain ⟨i, found⟩ := List.mem_iff_getElem?.mp member
    obtain ⟨at_row, at_j⟩ := List.getElem?_zip_eq_some.mp found
    simpa [maskOf, at_row] using every i j at_j
  · intro every i j found
    obtain ⟨bound, _⟩ := List.getElem?_eq_some_iff.mp found
    obtain ⟨row, at_row⟩ := exists_at (full ▸ bound : i < pairs.length)
    have member : (row, j) ∈ pairs.zip order := List.mem_of_getElem? (List.getElem?_zip_eq_some.mpr ⟨at_row, found⟩)
    simpa [maskOf, at_row] using every (row, j) member

variable {assigner : Assigner} (cheapest : assigner.Cheapest)
include cheapest

/-- Asking for a pairing and masking the arrangements lists what the plain search lists. -/
theorem combine_eq {c p : Branch} {pairs : List (List Maps)} (full : pairs.length = p.children.length) :
    combine assigner c p pairs = answer (((orderings p.children.length).filter (allMatch pairs)).flatMap
      (mapsOf c.children p.children pairs)) := by
  have kept : (orderings p.children.length).filter (suits (maskOf p.children.length pairs).allows 0) =
      (orderings p.children.length).filter (allMatch pairs) := by
    apply List.filter_congr
    intro order member
    rw [Bool.eq_iff_iff]
    exact suits_mask_iff ((order_length (mem_orderings.mp member)).trans full.symm)
  unfold combine
  cases feasible : (maskOf p.children.length pairs).isAssignable assigner with
  | true =>
    simp only [feasible, if_true, toList_eq_filter]
    rw [← kept]
    rfl
  | false =>
    have none_kept : (orderings p.children.length).filter (suits (maskOf p.children.length pairs).allows 0) = [] := by
      apply List.filter_eq_nil_iff.mpr
      intro order member suited
      have possible := (Mask.isAssignable_iff cheapest).mpr ⟨rfl, order, mem_orderings.mp member, suited⟩
      rw [feasible] at possible
      cases possible
    rw [← kept, none_kept]
    simp [feasible, answer]

/-- What is worked out for two branches is the answer of the plain search. -/
theorem shortcuts_eq (c p : Branch) :
    (if !mayMatch c p then none
      else if p.children.isEmpty then some [[]]
      else combine assigner c p (answers c.children p.children)) = plainMatch c p := by
  rw [plainMatch_eq]
  by_cases same : c.kind = p.kind ∧ c.children.length = p.children.length
  · have ⟨kind, size⟩ := same
    have full : (answers c.children p.children).length = p.children.length := by simpa [answers] using size
    rw [if_pos same, combine_eq cheapest full]
    by_cases ranks : childRanks c.children = childRanks p.children
    · have admitted : mayMatch c p = true := by simp [mayMatch, kind, size, ranks]
      simp [admitted]
    · have refused : mayMatch c p = false := by simp [mayMatch, ranks]
      have leaf : p.children.isEmpty = false := by
        cases none_p : p.children.isEmpty with
        | false => rfl
        | true =>
          have empty_p := List.isEmpty_iff.mp none_p
          have empty_c : c.children = [] := List.eq_nil_of_length_eq_zero (by rw [size, empty_p]; rfl)
          exact absurd (by rw [empty_p, empty_c]) ranks
      have nothing : (orderings p.children.length).filter (allMatch (answers c.children p.children)) = [] :=
        List.filter_eq_nil_iff.mpr fun order member matched =>
          ranks (childRanks_of_allMatch size (mem_orderings.mp member) matched)
      simp [refused, leaf, nothing, answer]
  · have refused : mayMatch c p = false := by
      rw [Bool.eq_false_iff]
      intro admitted
      simp only [mayMatch, Bool.and_eq_true, decide_eq_true_eq] at admitted
      exact same admitted.1
    simp [refused, same]

end PayloadSchema.Matching
