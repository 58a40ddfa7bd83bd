import PayloadSchema.Proofs.Matching.Assignments
import PayloadSchema.Proofs.Matching.Enumeration
import PayloadSchema.Proofs.Matching.Pairings

/-! Asking for a pairing by way of costs. A cheapest assignment costs nothing exactly when it uses allowed cells only,
and then it is a permutation that suits the mask. So whatever finds cheapest assignments, the answer says whether there
is anything to enumerate under the mask, and it is that of serving the rows one after another. -/
namespace PayloadSchema

namespace Mask
open Arrangements Assignment

variable {mask : Mask} {assigner : Assigner} {order : List Nat}

theorem hasOptions_of_order (square : mask.rows = mask.columns) (perm : order.Perm (List.range mask.rows))
    (suited : suits mask.allows 0 order) : mask.hasOptions := by
  have allowed : ∀ i j, order[i]? = some j → mask.allows i j := fun i j found => by
    have cell := suits_iff.mp suited i j found
    rwa [Nat.zero_add] at cell
  have size : order.length = mask.rows := by rw [perm.length_eq, List.length_range]
  simp only [hasOptions, Bool.and_eq_true, List.all_eq_true, List.any_eq_true]
  constructor
  · intro i row
    have bound : i < order.length := size ▸ List.mem_range.mp row
    have column : order[i] ∈ List.range mask.columns := square ▸ perm.subset (List.getElem_mem bound)
    exact ⟨order[i], column, allowed i _ (List.getElem?_eq_getElem bound)⟩
  · intro j column
    obtain ⟨i, found⟩ := List.mem_iff_getElem?.mp (perm.symm.subset (square ▸ column))
    have bound : i < order.length := (List.getElem?_eq_some_iff.mp found).1
    exact ⟨i, List.mem_range.mpr (size ▸ bound), allowed i j found⟩

/-- By way of costs it is told whether some permutation puts every column where a row may have it. -/
theorem isAssignable_iff (cheapest : assigner.Cheapest) :
    mask.isAssignable assigner ↔
      mask.rows = mask.columns ∧ ∃ order, order.Perm (List.range mask.rows) ∧ suits mask.allows 0 order := by
  unfold isAssignable
  by_cases square : mask.rows = mask.columns
  · rw [if_neg (not_not.mpr square), and_iff_right square]
    by_cases none : mask.rows = 0
    · rw [if_pos none, none]
      exact iff_of_true rfl ⟨[], .nil, rfl⟩
    · rw [if_neg none]
      have complete := cheapest.complete mask.rows mask.cost
      constructor
      · intro told
        by_cases options : mask.hasOptions
        · rw [if_neg (by simp [options]), List.all_eq_true] at told
          obtain ⟨order, perm, cells⟩ := exists_ofOrder complete
          have free := (total_perm mask.cost cells).trans (total_eq_zero_iff.mpr told)
          exact ⟨order, perm, ofOrder_free_iff.mp free⟩
        · rw [if_pos (by simp [options])] at told
          cases told
      · rintro ⟨order, perm, suited⟩
        have options := hasOptions_of_order square perm suited
        have least := cheapest.least mask.rows mask.cost _ (ofOrder_complete perm)
        rw [ofOrder_free_iff.mpr suited] at least
        rw [if_neg (by simp [options]), List.all_eq_true]
        exact total_eq_zero_iff.mp (Nat.le_zero.mp least)
  · rw [if_pos square]
    exact iff_of_false (by simp) fun possible => square possible.1

/-- Costs tell the same as serving the rows one after another. -/
theorem isAssignable_eq (cheapest : assigner.Cheapest) : mask.isAssignable assigner = mask.hasPerfectMatching := by
  rw [Bool.eq_iff_iff, isAssignable_iff cheapest, hasPerfectMatching_iff]

end Mask

namespace Arrangements

/-- Something is enumerated exactly when there is an arrangement. -/
theorem answers_iff (a : Arrangements) :
    (∃ order next, Answers a a.fresh (some order) next) ↔ ∃ order, order ∈ a.toList := by
  constructor
  · rintro ⟨order, next, answered⟩
    exact ⟨order, List.mem_of_head? ((fresh_ahead a).answer answered).1.symm⟩
  · rintro ⟨order, listed⟩
    obtain ⟨first, rest, whole⟩ := List.exists_cons_of_ne_nil (List.ne_nil_of_mem listed)
    obtain ⟨next, answered⟩ := (fresh_ahead a).answered
    rw [whole] at answered
    exact ⟨first, next, answered⟩

theorem mem_of_square {n : Nat} {g : Grid} {a : Arrangements} (square : g.shape = [n, n])
    (accepted : of (.whole n) (some g) = .ok a) {order : List Nat} :
    order ∈ a.toList ↔ order.Perm (List.range n) ∧ ∀ i j, order[i]? = some j → g.cells[i * n + j]? = some true := by
  obtain ⟨b, made, rfl, agree⟩ := of_square n (some g) fun _ given => Option.some.inj given ▸ square
  obtain rfl := Except.ok.inj (accepted.symm.trans made)
  rw [toList_eq_filter, List.mem_filter, mem_orderings]
  refine and_congr_right fun perm => ?_
  rw [suits_of_agreeing agree (mem_orderings.mpr perm), suits_iff]
  simp [admits]

end Arrangements

namespace Grid
open Arrangements

variable {assigner : Assigner} {g : Grid} {rows columns : Nat}

/-- What it is to tell whether the rows of a grid can be paired off with its columns. -/
structure TellsPairing (assigner : Assigner) (rows columns : Nat) (g : Grid) (paired : Bool) : Prop where
  told : g.isAssignable assigner = .ok paired
  /-- Serving the rows one after another tells the same. -/
  served : g.hasPerfectMatching = .ok paired
  possible : paired = true ↔ rows = columns ∧ ∃ order : List Nat, order.Perm (List.range rows) ∧
    ∀ i j, order[i]? = some j → g.cells[i * columns + j]? = some true
  /-- There is a pairing exactly when the permutations under the grid can be enumerated and there is a first one. -/
  enumerated : paired = true ↔ rows = columns ∧
    ∃ a, of (.whole rows) (some g) = .ok a ∧ ∃ order next, Answers a a.fresh (some order) next
  empty : rows = 0 → columns = 0 → paired = true
  oblong : rows ≠ columns → paired = false

/-- The mask of a grid of two dimensions allows what its cells say. -/
theorem mask_of_shape (shape : g.shape = [rows, columns]) :
    ∃ mask, g.mask? = some mask ∧ mask.rows = rows ∧ mask.columns = columns ∧
      ∀ i j, mask.allows i j = true ↔ j < columns ∧ g.cells[i * columns + j]? = some true := by
  rw [mask?, shape]
  refine ⟨_, rfl, rfl, rfl, fun i j => ?_⟩
  cases cell : g.cells[i * columns + j]? <;> simp [cell]

/-- For every grid of two dimensions, costs tell whether its rows can be paired off with its columns, and so whether
there is anything to enumerate. -/
theorem pairing_told (cheapest : assigner.Cheapest) (shape : g.shape = [rows, columns]) :
    ∃ paired, TellsPairing assigner rows columns g paired := by
  obtain ⟨mask, made, rfl, rfl, cells⟩ := mask_of_shape shape
  have possible : mask.isAssignable assigner = true ↔ mask.rows = mask.columns ∧
      ∃ order : List Nat, order.Perm (List.range mask.rows) ∧
        ∀ i j, order[i]? = some j → g.cells[i * mask.columns + j]? = some true := by
    rw [Mask.isAssignable_iff cheapest]
    refine and_congr_right fun square => exists_congr fun order => and_congr_right fun perm => ?_
    rw [suits_iff]
    refine forall₃_congr fun i j found => ?_
    have inside : j < mask.columns := square ▸ List.mem_range.mp (perm.subset (List.mem_of_getElem? found))
    rw [Nat.zero_add, cells, and_iff_right inside]
  refine ⟨mask.isAssignable assigner, ?_, ?_, possible, possible.trans (and_congr_right fun square => ?_), ?_, ?_⟩
  · rw [isAssignable, made]
  · rw [hasPerfectMatching, made, Mask.isAssignable_eq cheapest]
  · have even : g.shape = [mask.rows, mask.rows] := by rw [shape, ← square]
    obtain ⟨a, accepted, _⟩ := of_square mask.rows (some g) fun _ given => Option.some.inj given ▸ even
    rw [← square]
    simp only [accepted, Except.ok.injEq, exists_eq_left', answers_iff, mem_of_square even accepted]
  · intro noRows noColumns
    simp [Mask.isAssignable, noRows, noColumns]
  · intro oblong
    simp [Mask.isAssignable, oblong]

/-- Each row has a single column to itself once the second row has taken the only one it may have. -/
def forced : Grid := ⟨[3, 3], [true, true, false, true, false, false, false, true, true]⟩

theorem forced_paired : Assigner.exhaustive.Cheapest ∧ forced.shape = [3, 3] ∧
    forced.isAssignable Assigner.exhaustive = .ok true ∧
    TellsPairing Assigner.exhaustive 3 3 forced true := by
  have told : forced.isAssignable Assigner.exhaustive = .ok true := by decide +kernel
  obtain ⟨paired, tells⟩ := pairing_told Assigner.exhaustive_cheapest (g := forced) rfl
  obtain rfl : paired = true := Except.ok.inj (tells.told.symm.trans told)
  exact ⟨Assigner.exhaustive_cheapest, rfl, told, tells⟩

end Grid

end PayloadSchema
