import Mathlib.Data.List.Lex
import Mathlib.Data.List.Permutation
import PayloadSchema.Matching.Arrangement
import PayloadSchema.Proofs.Lists

/-! Arrangements are permutations in lexicographic order. A mask leaves out exactly those that put an element where
it is not allowed, although it is looked at while places are still being filled. -/
namespace PayloadSchema.Arrangements

/-- All permutations of the numbers below a bound, in lexicographic order. -/
def orderings (n : Nat) : List (List Nat) := (List.range n).permutations.mergeSort fun a b => decide (a ≤ b)

theorem mem_orderings {n : Nat} {order : List Nat} : order ∈ orderings n ↔ order.Perm (List.range n) := by
  rw [orderings, List.mem_mergeSort, List.mem_permutations]

theorem orderings_sorted (n : Nat) : (orderings n).Pairwise (· < ·) := by
  have ordered : (orderings n).Pairwise fun a b => decide (a ≤ b) = true := by
    apply List.pairwise_mergeSort
    · intro a b c first second
      exact decide_eq_true (le_trans (of_decide_eq_true first) (of_decide_eq_true second))
    · exact fun a b => by simpa using le_total a b
  have distinct : (orderings n).Nodup :=
    (List.mergeSort_perm _ _).nodup_iff.mpr (List.nodup_permutations _ (List.nodup_range))
  refine (ordered.and distinct).imp fun {a b} both => ?_
  exact lt_of_le_of_ne (by simpa using both.1) both.2

/-- Every way to fill so many places from the unused elements, as lists of what stands in them. -/
def fills (allows : Nat → Nat → Bool) : (place : Nat) → (unused : List Nat) → (left : Nat) → List (List Nat)
  | _, _, 0 => [[]]
  | place, unused, left + 1 =>
    (unused.filter (allows place)).flatMap fun element =>
      (fills allows (place + 1) (unused.erase element) left).map (element :: ·)

theorem extend_toList (a : Arrangements) (front unused : List Nat) (left : Nat) :
    (a.extend front unused left).toList = (fills a.allows front.length unused left).map (front.reverse ++ ·) := by
  induction left generalizing front unused with
  | zero => simp [extend, fills, Series.toList]
  | succ left ih =>
    simp only [extend, fills, Series.toList_concat, List.map_flatMap, List.map_map]
    apply List.flatMap_congr
    intro element _
    simp [ih, Function.comp_def]

/-- Whether all elements may stand in their places, from a place on. -/
def suits (allows : Nat → Nat → Bool) : (place : Nat) → List Nat → Bool
  | _, [] => true
  | place, element :: rest => allows place element && suits allows (place + 1) rest

theorem suits_iff {allows : Nat → Nat → Bool} {place : Nat} {order : List Nat} :
    suits allows place order ↔ ∀ i element, order[i]? = some element → allows (place + i) element := by
  induction order generalizing place with
  | nil => simp [suits]
  | cons first rest ih =>
    rw [suits, Bool.and_eq_true, ih]
    constructor
    · rintro ⟨here, behind⟩ i element found
      cases i with
      | zero =>
        obtain rfl : first = element := by simpa using found
        exact here
      | succ i =>
        rw [Nat.add_comm i 1, ← Nat.add_assoc]
        exact behind i element (by simpa using found)
    · intro every
      refine ⟨every 0 first rfl, fun i element found => ?_⟩
      rw [Nat.add_assoc, Nat.add_comm 1 i]
      exact every (i + 1) element (by simpa using found)

/-- Leaving out elements on the way is leaving out the lists that hold them. -/
theorem fills_filter (allows : Nat → Nat → Bool) (place : Nat) (unused : List Nat) (left : Nat) :
    fills allows place unused left = (fills (fun _ _ => true) place unused left).filter (suits allows place) := by
  induction left generalizing place unused with
  | zero => rfl
  | succ left ih =>
    simp only [fills, List.filter_true, List.filter_flatMap, List.filter_map]
    refine flatMap_filter (fun element _ admitted => ?_) (fun element _ refused => ?_)
    · have behind : suits allows place ∘ (element :: ·) = suits allows (place + 1) := by
        funext rest
        simp [suits, admitted]
      rw [ih, behind]
    · simp [suits, refused]

theorem mem_fills {place : Nat} {unused order : List Nat} :
    order ∈ fills (fun _ _ => true) place unused unused.length ↔ order.Perm unused := by
  generalize size : unused.length = left
  induction left generalizing place unused order with
  | zero =>
    obtain rfl := List.eq_nil_of_length_eq_zero size
    simp [fills]
  | succ left ih =>
    simp only [fills, List.filter_true, List.mem_flatMap, List.mem_map]
    constructor
    · rintro ⟨element, known, rest, filled, rfl⟩
      have fewer : (unused.erase element).length = left := by rw [List.length_erase_of_mem known]; omega
      exact (((ih fewer).mp filled).cons element).trans (List.perm_cons_erase known).symm
    · intro same
      cases order with
      | nil => simp [← same.length_eq] at size
      | cons element rest =>
        have known : element ∈ unused := same.subset List.mem_cons_self
        have fewer : (unused.erase element).length = left := by rw [List.length_erase_of_mem known]; omega
        have behind := (same.trans (List.perm_cons_erase known)).cons_inv
        exact ⟨element, known, rest, (ih fewer).mpr behind, rfl⟩

theorem fills_sorted (allows : Nat → Nat → Bool) (place left : Nat) {unused : List Nat}
    (ascending : unused.Pairwise (· < ·)) : (fills allows place unused left).Pairwise (· < ·) := by
  induction left generalizing place unused with
  | zero => simp [fills]
  | succ left ih =>
    rw [fills, List.pairwise_flatMap]
    refine ⟨fun element _ => ?_, (ascending.filter _).imp ?_⟩
    · refine List.pairwise_map.mpr ((ih (place + 1) (ascending.sublist List.erase_sublist)).imp ?_)
      intro a b before
      exact List.cons_lt_cons_iff.mpr (.inr ⟨rfl, before⟩)
    · intro first second before x xMember y yMember
      obtain ⟨a, _, rfl⟩ := List.mem_map.mp xMember
      obtain ⟨b, _, rfl⟩ := List.mem_map.mp yMember
      exact List.cons_lt_cons_iff.mpr (.inl before)

theorem toList_eq_fills (a : Arrangements) : a.toList = fills a.allows 0 (List.range a.size) a.size := by
  simp [toList, series, extend_toList]

/-- Filling all places in every way comes to the permutations in lexicographic order. -/
theorem orderings_eq (n : Nat) : orderings n = fills (fun _ _ => true) 0 (List.range n) n := by
  have sorted := fills_sorted (fun _ _ => true) 0 n (List.pairwise_lt_range (n := n))
  have listed : ∀ order, order ∈ orderings n ↔ order ∈ fills (fun _ _ => true) 0 (List.range n) n := by
    intro order
    have filled := @mem_fills 0 (List.range n) order
    rw [List.length_range] at filled
    rw [filled, mem_orderings]
  have same : (orderings n).Perm (fills (fun _ _ => true) 0 (List.range n) n) :=
    (List.perm_ext_iff_of_nodup ((orderings_sorted n).imp ne_of_lt) (sorted.imp ne_of_lt)).mpr listed
  exact same.eq_of_pairwise (fun _ _ _ _ before after => absurd before (lt_asymm after)) (orderings_sorted n) sorted

/-- The arrangements are the permutations that suit the mask, in lexicographic order. -/
theorem toList_eq_filter (a : Arrangements) : a.toList = (orderings a.size).filter (suits a.allows 0) := by
  rw [toList_eq_fills, fills_filter, orderings_eq]

end PayloadSchema.Arrangements
