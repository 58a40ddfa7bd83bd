import Mathlib.Data.List.Dedup
import Mathlib.Data.List.Forall2
import Mathlib.Data.List.Perm.Basic

/-! Facts about lists that several parts of the theory use: lists without repetitions, runs over a list that never
fail, and lists whose elements are related one by one. -/
namespace PayloadSchema

variable {α β ε : Type}

/-- A run that succeeds on every element succeeds on the list. -/
theorem mapM_succeeds {f : α → Except ε β} {g : α → β} (xs : List α) (each : ∀ x ∈ xs, f x = .ok (g x)) :
    xs.mapM f = .ok (xs.map g) := by
  induction xs with
  | nil => rfl
  | cons x xs ih =>
    have rest := ih fun y member => each y (List.mem_cons_of_mem _ member)
    simp [each x List.mem_cons_self, rest, Bind.bind, Except.bind, Pure.pure, Except.pure]

section Repetitions
variable [DecidableEq α]

/-- Erasing repetitions never adds elements, and it only keeps all of them when there are no repetitions. -/
theorem eraseDups_length (xs : List α) :
    xs.eraseDups.length ≤ xs.length ∧ (xs.eraseDups.length = xs.length → xs.Nodup) := by
  induction size : xs.length using Nat.strongRecOn generalizing xs with
  | ind size ih =>
    subst size
    cases xs with
    | nil => simp
    | cons x rest =>
      rw [List.eraseDups_cons, List.length_cons, List.length_cons]
      have fewer := List.length_filter_le (fun y => !(y == x)) rest
      obtain ⟨bound, distinct⟩ := ih _ (by simpa using Nat.lt_succ_of_le fewer) (rest.filter fun y => !(y == x)) rfl
      refine ⟨by omega, fun full => ?_⟩
      have kept : rest.filter (fun y => !(y == x)) = rest := List.filter_sublist.eq_of_length (by omega)
      refine List.nodup_cons.mpr ⟨fun again => ?_, kept ▸ distinct (by omega)⟩
      rw [← kept] at again
      simp at again

theorem eraseDups_of_nodup {xs : List α} (distinct : xs.Nodup) : xs.eraseDups = xs := by
  induction xs with
  | nil => rfl
  | cons x xs ih =>
    obtain ⟨fresh, distinct⟩ := List.nodup_cons.mp distinct
    have kept : xs.filter (fun y => !(y == x)) = xs := by
      apply List.filter_eq_self.mpr
      intro y member
      simpa using fun same : y = x => fresh (same ▸ member)
    rw [List.eraseDups_cons, kept, ih distinct]

end Repetitions

section FirstPlaces
variable [BEq α] [LawfulBEq α]

/-- Elements are left out before or after erasing repetitions. -/
theorem filter_eraseDups (p : α → Bool) (xs : List α) : xs.eraseDups.filter p = (xs.filter p).eraseDups := by
  induction size : xs.length using Nat.strongRecOn generalizing xs with
  | ind size ih =>
    subst size
    cases xs with
    | nil => rfl
    | cons x rest =>
      have fewer := List.length_filter_le (fun y => !(y == x)) rest
      have behind := ih _ (Nat.lt_succ_of_le fewer) (rest.filter fun y => !(y == x)) rfl
      rw [List.eraseDups_cons]
      by_cases kept : p x = true
      · rw [List.filter_cons_of_pos kept, List.filter_cons_of_pos kept, List.eraseDups_cons, behind,
          List.filter_filter, List.filter_filter]
        simp only [Bool.and_comm]
      · have dropped : (rest.filter fun y => !(y == x)).filter p = rest.filter p := by
          rw [List.filter_filter]
          refine List.filter_congr fun y _ => ?_
          cases same : y == x with
          | true => simp [eq_of_beq same, kept]
          | false => simp
        rw [List.filter_cons_of_neg kept, List.filter_cons_of_neg kept, behind, dropped]

theorem eraseDups_nodup (xs : List α) : xs.eraseDups.Nodup := by
  induction size : xs.length using Nat.strongRecOn generalizing xs with
  | ind size ih =>
    subst size
    cases xs with
    | nil => exact List.nodup_nil
    | cons x rest =>
      have fewer := List.length_filter_le (fun y => !(y == x)) rest
      rw [List.eraseDups_cons]
      refine List.nodup_cons.mpr ⟨fun again => ?_, ih _ (Nat.lt_succ_of_le fewer) _ rfl⟩
      simp [List.mem_eraseDups] at again

/-- Where nothing comes twice, it is the same to leave an element out of so many and out of one more. -/
theorem take_filter_ne {xs : List α} (once : xs.Nodup) (x : α) (count : Nat) :
    ((xs.take (count + 1)).filter fun y => !(y == x)).take count = (xs.filter fun y => !(y == x)).take count := by
  induction xs generalizing count with
  | nil => simp
  | cons y rest ih =>
    obtain ⟨fresh, others⟩ := List.nodup_cons.mp once
    rw [List.take_succ_cons]
    cases same : y == x with
    | true =>
      have kept : ∀ {zs : List α}, zs.Sublist rest → (zs.filter fun z => !(z == x)) = zs := fun part =>
        List.filter_eq_self.mpr fun z member => by
          simpa using fun equal : z = x => fresh (eq_of_beq same ▸ equal ▸ part.subset member)
      rw [List.filter_cons_of_neg (by simp [same]), List.filter_cons_of_neg (by simp [same]),
        kept (List.take_sublist _ _), kept (List.Sublist.refl _), List.take_take, Nat.min_self]
    | false =>
      rw [List.filter_cons_of_pos (by simp [same]), List.filter_cons_of_pos (by simp [same])]
      cases count with
      | zero => rfl
      | succ count => rw [List.take_succ_cons, List.take_succ_cons, ih others]

end FirstPlaces

theorem flatMap_length_le {f : α → List β} {xs : List α} (small : ∀ x ∈ xs, (f x).length ≤ 1) :
    (xs.flatMap f).length ≤ xs.length := by
  induction xs with
  | nil => simp
  | cons x xs ih =>
    have first := small x List.mem_cons_self
    have rest := ih fun y member => small y (List.mem_cons_of_mem _ member)
    rw [List.flatMap_cons, List.length_append, List.length_cons]
    omega

/-- Of lists with one element at most each, all have one when there are as many elements as lists. -/
theorem flatMap_full {f : α → List β} {xs : List α} (small : ∀ x ∈ xs, (f x).length ≤ 1)
    (full : xs.length ≤ (xs.flatMap f).length) : ∀ x ∈ xs, (f x).length = 1 := by
  induction xs with
  | nil => simp
  | cons x xs ih =>
    have room := flatMap_length_le fun y member => small y (List.mem_cons_of_mem _ member)
    have first := small x List.mem_cons_self
    rw [List.flatMap_cons, List.length_append, List.length_cons] at full
    intro y member
    rcases List.mem_cons.mp member with rfl | member
    · omega
    · exact ih (fun z listed => small z (List.mem_cons_of_mem _ listed)) (by omega) y member

/-- In the parts of a list that have all the same length, places are found by counting in whole parts. -/
theorem flatMap_getElem? {f : α → List β} {s : Nat} {xs : List α} (same : ∀ x ∈ xs, (f x).length = s)
    {p i : Nat} {x : α} (found : xs[p]? = some x) (inside : i < s) : (xs.flatMap f)[p * s + i]? = (f x)[i]? := by
  induction xs generalizing p with
  | nil => cases found
  | cons first rest ih =>
    obtain ⟨here, others⟩ := List.forall_mem_cons.mp same
    rw [List.flatMap_cons]
    cases p with
    | zero =>
      obtain rfl : first = x := by simpa using found
      rw [Nat.zero_mul, Nat.zero_add, List.getElem?_append_left (by omega)]
    | succ p =>
      have further : (p + 1) * s + i - s = p * s + i := by rw [Nat.succ_mul]; omega
      rw [List.getElem?_append_right (by rw [here, Nat.succ_mul]; omega), here, further]
      exact ih others (by simpa using found)

theorem flatMap_length {f : α → List β} {s : Nat} {xs : List α} (same : ∀ x ∈ xs, (f x).length = s) :
    (xs.flatMap f).length = xs.length * s := by
  rw [List.length_flatMap, List.map_congr_left same, List.map_const', List.sum_replicate_nat]

/-- Elements that lead to nothing can be left out. -/
theorem flatMap_filter {p : α → Bool} {f g : α → List β} {xs : List α} (kept : ∀ x ∈ xs, p x = true → f x = g x)
    (dropped : ∀ x ∈ xs, p x = false → g x = []) : (xs.filter p).flatMap f = xs.flatMap g := by
  induction xs with
  | nil => rfl
  | cons x rest ih =>
    have behind := ih (fun y member => kept y (List.mem_cons_of_mem x member))
      (fun y member => dropped y (List.mem_cons_of_mem x member))
    rw [List.flatMap_cons, ← behind]
    cases held : p x with
    | true => rw [List.filter_cons_of_pos held, List.flatMap_cons, kept x List.mem_cons_self held]
    | false => rw [List.filter_cons_of_neg (by simp [held]), dropped x List.mem_cons_self held, List.nil_append]

theorem forall₂_partner {R : α → β → Prop} {xs : List α} {ys : List β} (related : List.Forall₂ R xs ys) {x : α}
    (member : x ∈ xs) : ∃ y ∈ ys, R x y := by
  induction related with
  | nil => cases member
  | cons first _ ih =>
    rcases List.mem_cons.mp member with rfl | later
    · exact ⟨_, List.mem_cons_self, first⟩
    · obtain ⟨y, known, held⟩ := ih later
      exact ⟨y, List.mem_cons_of_mem _ known, held⟩

theorem forall₂_imp_mem {R S : α → β → Prop} {xs : List α} {ys : List β} (related : List.Forall₂ R xs ys)
    (imp : ∀ x, ∀ y ∈ ys, R x y → S x y) : List.Forall₂ S xs ys := by
  induction related with
  | nil => exact .nil
  | cons first _ ih =>
    exact .cons (imp _ _ List.mem_cons_self first) (ih fun x y member => imp x y (List.mem_cons_of_mem _ member))

theorem forall₂_concat {R : α → β → Prop} {xs : List α} {ys : List β} {x : α} {y : β}
    (levels : xs.length = ys.length) :
    List.Forall₂ R (xs ++ [x]) (ys ++ [y]) ↔ List.Forall₂ R xs ys ∧ R x y := by
  rw [List.forall₂_iff_zip, List.forall₂_iff_zip, List.zip_append levels]
  simp [levels, or_imp, forall_and]

theorem forall₂_join {γ : Type} {R : α → γ → Prop} {S : β → γ → Prop} {T : α → β → Prop} {xs : List α} {ys : List β}
    {zs : List γ} (left : List.Forall₂ R xs zs) (right : List.Forall₂ S ys zs)
    (join : ∀ x y z, R x z → S y z → T x y) : List.Forall₂ T xs ys := by
  induction left generalizing ys with
  | nil =>
    cases right
    exact .nil
  | cons first _ ih =>
    cases right with
    | cons second behind => exact .cons (join _ _ _ first second) (ih behind)

theorem forall₂_choose {R : α → β → Prop} {ys : List β} (each : ∀ y ∈ ys, ∃ x, R x y) :
    ∃ xs, List.Forall₂ R xs ys := by
  induction ys with
  | nil => exact ⟨[], .nil⟩
  | cons y rest ih =>
    obtain ⟨x, held⟩ := each y List.mem_cons_self
    obtain ⟨xs, behind⟩ := ih fun z member => each z (List.mem_cons_of_mem y member)
    exact ⟨x :: xs, .cons held behind⟩

/-- What is a permutation of some images are the images of a permutation. -/
theorem perm_map {f : α → β} {xs : List β} {ys : List α} (perm : xs.Perm (ys.map f)) :
    ∃ zs : List α, xs = zs.map f ∧ zs.Perm ys := by
  have composed := congrFun (congrFun (List.eq_map_comp_perm f) xs) ys
  exact composed.mpr perm

/-- Where no two elements are related, just one place holds an element of a kind whose elements are all related. -/
theorem unique_place {R : α → α → Prop} {P : α → Prop} {xs : List α} (apart : xs.Pairwise fun x y => ¬ R x y)
    (related : ∀ x y, P x → P y → R x y) {x : α} (member : x ∈ xs) (held : P x) :
    ∃! i : Nat, ∃ y, xs[i]? = some y ∧ P y := by
  obtain ⟨i, found⟩ := List.mem_iff_getElem?.mp member
  have later : ∀ {i j : Nat} {x y : α}, i < j → xs[i]? = some x → xs[j]? = some y → ¬ R x y := by
    intro i j x y order first second
    obtain ⟨iBound, rfl⟩ := List.getElem?_eq_some_iff.mp first
    obtain ⟨jBound, rfl⟩ := List.getElem?_eq_some_iff.mp second
    exact List.pairwise_iff_getElem.mp apart i j iBound jBound order
  refine ⟨i, ⟨x, found, held⟩, fun j ⟨y, other, also⟩ => ?_⟩
  rcases Nat.lt_trichotomy j i with before | same | after
  · exact absurd (related y x also held) (later before other found)
  · exact same
  · exact absurd (related x y held also) (later after found other)

end PayloadSchema
