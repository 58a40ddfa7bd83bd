import Mathlib.Data.List.Basic
import PayloadSchema.Proofs.Arena.NameLinks

/-! Children by sorting. The children of a descriptor can also be collected from the front of all names and then sorted
by where they are listed. No name that was collected fails to be listed, and among distinct names the order is the one
that linking gives. -/
namespace PayloadSchema.Linking
open Arena

variable {names : List Text} {d : Descriptor} {p q : Position}

/-- The positions of all names that a descriptor lists, from the front. -/
def collected (names : List Text) (d : Descriptor) : List Position :=
  (names.zipIdx.filter fun entry => d.childNames.contains entry.1).map fun entry => (entry.2 : Position)

/-- A position whose name is not among those listed. -/
structure Unlisted where
  position : Position
deriving DecidableEq, Repr

/-- Where the name at a position is listed first. -/
def rank (names : List Text) (d : Descriptor) (p : Position) : Except Unlisted Nat :=
  match nodeAt? names p with
  | some s => if s ∈ d.childNames then .ok (d.childNames.idxOf s) else .error ⟨p⟩
  | none => .error ⟨p⟩

/-- The collected children, sorted by where they are listed. -/
def sortedChildren (names : List Text) (d : Descriptor) : Except Unlisted (List Position) := do
  let ranked ← (collected names d).mapM fun p => (rank names d p).map (·, p)
  return (ranked.mergeSort fun a b => a.1 ≤ b.1).map Prod.snd

theorem mem_collected : p ∈ collected names d ↔ p ∈ (linksOf names d).children := by
  simp only [collected, mem_children, List.mem_map, List.mem_filter, List.mem_zipIdx_iff_getElem?,
    List.contains_iff_mem, Prod.exists]
  constructor
  · rintro ⟨s, i, ⟨found, listed⟩, rfl⟩
    exact ⟨i, s, listed, found, rfl⟩
  · rintro ⟨i, s, listed, found, rfl⟩
    exact ⟨s, i, ⟨found, listed⟩, rfl⟩

theorem collected_nodup (names : List Text) (d : Descriptor) : (collected names d).Nodup := by
  have numbered := (List.nodup_zipIdx_map_snd names).sublist
    ((List.filter_sublist (p := fun entry => d.childNames.contains entry.1)).map Prod.snd)
  simpa [collected, Function.comp_def] using
    numbered.map (f := fun i : Nat => (i : Position)) fun _ _ same => Int.ofNat.inj same

theorem children_nodup_of_names (names : List Text) (d : Descriptor) : (linksOf names d).children.Nodup := by
  refine List.nodup_flatMap.mpr ⟨fun s _ => positions_nodup, (eraseDups_nodup d.childNames).imp fun {s r} apart => ?_⟩
  intro p first second
  obtain ⟨i, here, rfl⟩ := mem_positions.mp first
  obtain ⟨j, there, same⟩ := mem_positions.mp second
  obtain rfl : j = i := Int.ofNat.inj same
  exact apart (Option.some.inj (here.symm.trans there))

/-- Where the name at a position stands in the list, if it does. -/
def placeAmong (names : List Text) (d : Descriptor) (p : Position) : Nat :=
  d.childNames.idxOf ((nodeAt? names p).getD "")

theorem placeAmong_at {i : Nat} {s : Text} (found : names[i]? = some s) :
    placeAmong names d i = d.childNames.idxOf s := by
  rw [placeAmong, nodeAt?_natCast, found, Option.getD_some]

/-- Every collected child is listed. -/
theorem rank_collected (member : p ∈ collected names d) : rank names d p = .ok (placeAmong names d p) := by
  obtain ⟨i, s, listed, found, rfl⟩ := mem_children.mp (mem_collected.mp member)
  simp [rank, placeAmong_at found, nodeAt?_natCast, found, listed]

/-- What is kept when repetitions are erased stands in the order in which it first came. -/
theorem eraseDups_in_order (xs : List Text) : xs.eraseDups.Pairwise fun s r => xs.idxOf s < xs.idxOf r := by
  induction xs with
  | nil => exact .nil
  | cons x rest ih =>
    rw [List.eraseDups_cons, ← filter_eraseDups]
    have others : ∀ s ∈ rest.eraseDups.filter fun y => !(y == x), x ≠ s := fun s kept same => by
      simp [same] at kept
    refine List.pairwise_cons.mpr ⟨fun s kept => ?_, ?_⟩
    · rw [List.idxOf_cons_self, List.idxOf_cons_ne _ (others s kept)]
      exact Nat.succ_pos _
    · refine (ih.sublist List.filter_sublist).imp_of_mem fun {s r} first second before => ?_
      rw [List.idxOf_cons_ne _ (others s first), List.idxOf_cons_ne _ (others r second)]
      exact Nat.succ_lt_succ before

theorem children_in_place (distinct : names.Nodup) (d : Descriptor) :
    (linksOf names d).children.Pairwise fun p q => placeAmong names d p ≤ placeAmong names d q := by
  refine List.pairwise_flatMap.mpr ⟨fun s _ => ?_, (eraseDups_in_order d.childNames).imp fun {s r} before => ?_⟩
  · have alone := positions_length_le distinct s
    match positions names s, alone with
    | [], _ => exact .nil
    | [p], _ => exact List.pairwise_singleton _ p
  · intro p here q there
    obtain ⟨i, at_i, rfl⟩ := mem_positions.mp here
    obtain ⟨j, at_j, rfl⟩ := mem_positions.mp there
    rw [placeAmong_at at_i, placeAmong_at at_j]
    exact Nat.le_of_lt before

/-- Among distinct names a child is told by where it is listed. -/
theorem placeAmong_injective (distinct : names.Nodup) (first : p ∈ collected names d) (second : q ∈ collected names d)
    (same : placeAmong names d p = placeAmong names d q) : p = q := by
  obtain ⟨i, s, known, found, rfl⟩ := mem_children.mp (mem_collected.mp first)
  obtain ⟨j, r, _, standing, rfl⟩ := mem_children.mp (mem_collected.mp second)
  rw [placeAmong_at found, placeAmong_at standing] at same
  obtain rfl := (List.idxOf_inj known).mp same
  have bound := (List.getElem?_eq_some_iff.mp found).1
  rw [(List.getElem?_inj bound distinct).mp (found.trans standing.symm)]

/-- Sorting by a key gives the order in which the keys ascend, if it is told by the keys alone. -/
theorem sort_by_key {key : Position → Nat} {found listed : List Position} (perm : found.Perm listed)
    (inPlace : listed.Pairwise fun p q => key p ≤ key q)
    (apart : ∀ p ∈ listed, ∀ q ∈ listed, key p = key q → p = q) :
    ((found.map fun p => (key p, p)).mergeSort fun a b => a.1 ≤ b.1).map Prod.snd = listed := by
  let keyed := found.map fun p => (key p, p)
  let sorted := keyed.mergeSort fun a b => a.1 ≤ b.1
  have kept : sorted.Perm keyed := List.mergeSort_perm _ _
  have own : ∀ a ∈ sorted, a.1 = key a.2 := fun a member => by
    obtain ⟨p, _, rfl⟩ := List.mem_map.mp (kept.mem_iff.mp member)
    rfl
  have ascending : sorted.Pairwise fun a b => a.1 ≤ b.1 := by
    refine (List.pairwise_mergeSort (fun a b c first second => ?_) (fun a b => ?_) keyed).imp of_decide_eq_true
    · exact decide_eq_true (Nat.le_trans (of_decide_eq_true first) (of_decide_eq_true second))
    · simpa using Nat.le_total a.1 b.1
  have sortedInPlace : (sorted.map Prod.snd).Pairwise fun p q => key p ≤ key q :=
    List.pairwise_map.mpr (ascending.imp_of_mem fun {a b} first second before =>
      own a first ▸ own b second ▸ before)
  have same : (sorted.map Prod.snd).Perm listed := by
    have unkeyed : (sorted.map Prod.snd).Perm found := by
      simpa [keyed, Function.comp_def] using kept.map Prod.snd
    exact unkeyed.trans perm
  exact same.eq_of_pairwise (fun p q first second before after =>
    apart p (same.mem_iff.mp first) q second (Nat.le_antisymm before after)) sortedInPlace inPlace

/-- Sorting never lacks a place to sort by, and among distinct names it gives the children in the order of linking. -/
theorem sortedChildren_eq (distinct : names.Nodup) (d : Descriptor) :
    sortedChildren names d = .ok (linksOf names d).children := by
  have looked : (collected names d).mapM (fun p => (rank names d p).map (·, p)) =
      .ok ((collected names d).map fun p => (placeAmong names d p, p)) :=
    mapM_succeeds _ fun p member => by rw [rank_collected member]; rfl
  have perm : (collected names d).Perm (linksOf names d).children :=
    (List.perm_ext_iff_of_nodup (collected_nodup names d) (children_nodup_of_names names d)).mpr fun _ => mem_collected
  have order := sort_by_key perm (children_in_place distinct d) fun p first q second =>
    placeAmong_injective distinct (mem_collected.mpr first) (mem_collected.mpr second)
  rw [sortedChildren, looked, ← order]
  rfl

end PayloadSchema.Linking
