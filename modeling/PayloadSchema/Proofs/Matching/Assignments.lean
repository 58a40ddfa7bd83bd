import Mathlib.Algebra.BigOperators.Ring.Finset
import Mathlib.Algebra.Order.BigOperators.Group.List
import Mathlib.Algebra.Order.Group.Int
import Mathlib.Algebra.Order.Group.Nat
import Mathlib.Data.List.Zip
import PayloadSchema.Matching.Assigner
import PayloadSchema.Proofs.Matching.Orderings

/-! Cheapest assignments. Assignments are permutations, but for the order of their cells, so looking at every permutation
finds a cheapest one. What all rows and columns are priced at is less than any assignment costs, so an assignment that
costs no more is cheapest. -/
namespace PayloadSchema

namespace Assignment
open Arrangements

variable {mask : Mask} {a : Assignment} {order : List Nat} {size : Nat}

theorem ofOrder_complete (perm : order.Perm (List.range size)) : (ofOrder order).Complete size where
  rows := by rw [ofOrder, perm.length_eq, List.length_range]
  columns := perm

theorem mem_ofOrder {i j : Nat} : (i, j) ∈ (ofOrder order).cells ↔ order[i]? = some j := by
  rw [cells, List.mem_iff_getElem?]
  constructor
  · rintro ⟨place, found⟩
    obtain ⟨row, column⟩ := List.getElem?_zip_eq_some.mp found
    obtain rfl : place = i := by
      obtain ⟨bound, same⟩ := List.getElem?_eq_some_iff.mp row
      simpa [ofOrder] using same
    exact column
  · intro found
    have bound : i < order.length := (List.getElem?_eq_some_iff.mp found).1
    exact ⟨i, List.getElem?_zip_eq_some.mpr ⟨by simp [ofOrder, bound], found⟩⟩

/-- Every assignment is one by permutation, but for the order of its cells. -/
theorem exists_ofOrder (complete : a.Complete size) :
    ∃ order, order.Perm (List.range size) ∧ (ofOrder order).cells.Perm a.cells := by
  have even : a.rows.length = a.columns.length := complete.rows.length_eq.trans complete.columns.length_eq.symm
  have rows : a.cells.map Prod.fst = a.rows := List.map_fst_zip (Nat.le_of_eq even)
  have columns : a.cells.map Prod.snd = a.columns := List.map_snd_zip (Nat.le_of_eq even.symm)
  obtain ⟨sorted, inTurn, perm⟩ := perm_map (rows ▸ complete.rows.symm)
  have order : (sorted.map Prod.snd).Perm (List.range size) :=
    ((perm.map _).trans (.of_eq columns)).trans complete.columns
  have zipped : sorted = (sorted.map Prod.fst).zip (sorted.map Prod.snd) := List.zip_of_prod rfl rfl
  refine ⟨sorted.map Prod.snd, order, ?_⟩
  rw [cells, ofOrder, order.length_eq, List.length_range, inTurn, ← zipped]
  exact perm

theorem total_perm {b : Assignment} (cost : Nat → Nat → Nat) (perm : a.cells.Perm b.cells) :
    a.total cost = b.total cost :=
  (perm.map _).foldr_eq 0

/-- Nothing is to be paid exactly where all cells are allowed. -/
theorem total_eq_zero_iff : a.total mask.cost = 0 ↔ ∀ e ∈ a.cells, mask.allows e.1 e.2 := by
  rw [total, ← List.sum_eq_foldr, List.sum_eq_zero_iff, List.forall_mem_map]
  refine forall₂_congr fun e _ => ?_
  simp [Mask.cost]

/-- Nothing is to be paid exactly where the permutation suits the mask. -/
theorem ofOrder_free_iff : (ofOrder order).total mask.cost = 0 ↔ suits mask.allows 0 order := by
  rw [total_eq_zero_iff, suits_iff]
  constructor
  · intro every i j found
    rw [Nat.zero_add]
    exact every (i, j) (mem_ofOrder.mpr found)
  · intro suited e used
    have allowed := suited e.1 e.2 (mem_ofOrder.mp used)
    rwa [Nat.zero_add] at allowed

end Assignment

namespace Assigner
open Arrangements Assignment

variable {size : Nat} {cost : Nat → Nat → Nat}

theorem mem_every {a : Assignment} :
    a ∈ ({ size, mask := none } : Arrangements).toList.map ofOrder ↔
      ∃ order, order.Perm (List.range size) ∧ ofOrder order = a := by
  have admitted : ∀ order, suits (Arrangements.allows { size, mask := none }) 0 order := fun order =>
    suits_iff.mpr fun _ _ _ => rfl
  simp only [List.mem_map, toList_eq_filter, List.mem_filter, mem_orderings, admitted, and_true]

/-- There always is an assignment to be found. -/
theorem exhaustive_min (size : Nat) (cost : Nat → Nat → Nat) :
    (({ size, mask := none } : Arrangements).toList.map ofOrder).minOn? (total cost) =
      some (exhaustive.solve size cost) := by
  have member := mem_every.mpr ⟨List.range size, .refl _, rfl⟩
  obtain ⟨a, found⟩ := Option.isSome_iff_exists.mp (List.isSome_minOn?_of_mem (f := total cost) member)
  simp only [exhaustive, found, Option.getD_some]

theorem exhaustive_cheapest : exhaustive.Cheapest where
  complete size cost := by
    obtain ⟨order, perm, same⟩ := mem_every.mp (List.minOn?_mem (exhaustive_min size cost))
    rw [← same]
    exact ofOrder_complete perm
  least size cost other complete := by
    obtain ⟨order, perm, cells⟩ := exists_ofOrder complete
    have listed := mem_every.mpr ⟨order, perm, rfl⟩
    have least := List.apply_get_minOn?_le_of_mem (f := total cost) listed
    simp only [exhaustive_min size cost, Option.get_some] at least
    rw [← total_perm cost cells]
    exact least

/-- All cells of an assignment together are priced like all rows and all columns. -/
theorem price_complete {a : Assignment} (complete : a.Complete size) (o : Offer) :
    (a.cells.map o.price).sum =
      ((List.range size).map o.rowPrice).sum + ((List.range size).map o.columnPrice).sum := by
  have even : a.rows.length = a.columns.length := complete.rows.length_eq.trans complete.columns.length_eq.symm
  have rows : a.cells.map (fun e => o.rowPrice e.1) = a.rows.map o.rowPrice := by
    rw [← List.map_fst_zip (Nat.le_of_eq even), List.map_map]
    rfl
  have columns : a.cells.map (fun e => o.columnPrice e.2) = a.columns.map o.columnPrice := by
    rw [← List.map_snd_zip (Nat.le_of_eq even.symm), List.map_map]
    rfl
  calc (a.cells.map o.price).sum
      = (a.cells.map fun e => o.rowPrice e.1).sum + (a.cells.map fun e => o.columnPrice e.2).sum := List.sum_map_add
    _ = _ := by rw [rows, columns, (complete.rows.map _).sum_eq, (complete.columns.map _).sum_eq]

theorem total_cast (cost : Nat → Nat → Nat) (a : Assignment) :
    (a.total cost : Int) = (a.cells.map fun e => (cost e.1 e.2 : Int)).sum := by
  rw [total, ← List.sum_eq_foldr, Nat.cast_list_sum, List.map_map]
  rfl

theorem mem_cells {a : Assignment} (complete : a.Complete size) {e : Nat × Nat} (used : e ∈ a.cells) :
    e.1 < size ∧ e.2 < size := by
  obtain ⟨row, column⟩ := List.of_mem_zip used
  exact ⟨List.mem_range.mp (complete.rows.subset row), List.mem_range.mp (complete.columns.subset column)⟩

/-- What the prices of an offer show to be cheapest is an assignment, and no other assignment costs less. -/
theorem offer_cheapest {o : Offer} (shown : o.isCheapest size cost) : o.assignment.Complete size ∧
    ∀ other : Assignment, other.Complete size → o.assignment.total cost ≤ other.total cost := by
  simp only [Offer.isCheapest, Bool.and_eq_true, List.isPerm_iff, List.all_eq_true, decide_eq_true_eq,
    List.mem_range] at shown
  obtain ⟨⟨⟨rows, columns⟩, never⟩, just⟩ := shown
  have complete : o.assignment.Complete size := ⟨rows, columns⟩
  refine ⟨complete, fun other whole => Int.ofNat_le.mp ?_⟩
  calc (o.assignment.total cost : Int)
      = (o.assignment.cells.map o.price).sum := by
        rw [total_cast, List.map_congr_left fun e used => (just e used).symm]
    _ = (other.cells.map o.price).sum := by rw [price_complete complete, price_complete whole]
    _ ≤ (other.cells.map fun e => (cost e.1 e.2 : Int)).sum :=
        List.sum_le_sum fun e used => never e.1 (mem_cells whole used).1 e.2 (mem_cells whole used).2
    _ = other.total cost := (total_cast cost other).symm

/-- Whatever is offered, an assigner that checks offers and otherwise finds cheapest assignments finds cheapest ones. -/
theorem checked_cheapest {offer : (size : Nat) → (cost : Nat → Nat → Nat) → Offer} {otherwise : Assigner}
    (cheapest : otherwise.Cheapest) : (checked offer otherwise).Cheapest where
  complete size cost := by
    dsimp only [checked]
    split
    · next shown => exact (offer_cheapest shown).1
    · exact cheapest.complete size cost
  least size cost := by
    dsimp only [checked]
    split
    · next shown => exact (offer_cheapest shown).2
    · exact cheapest.least size cost

theorem serving_cheapest : serving.Cheapest := checked_cheapest exhaustive_cheapest

end Assigner

end PayloadSchema
