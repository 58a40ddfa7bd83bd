import PayloadSchema.Proofs.Matching.ExactSearch

/-! The maps that are kept of a list. They are those of the largest size, each at the first place where it stands in the
list, whatever the order of its entries there; a list that was gone through once stays as it is. -/
namespace PayloadSchema.Correspondence

/-- Maps that give every name the same partner, whatever the order of their entries. -/
def Same (m n : Correspondence) : Prop := ∀ name, Assoc.get? m name = Assoc.get? n name

/-- A map that pairs each name once. -/
def Keyed (m : Correspondence) : Prop := (m.map Prod.fst).Nodup

/-- No map of a list has more entries. -/
def Largest (maps : List Correspondence) (m : Correspondence) : Prop := ∀ n ∈ maps, n.length ≤ m.length

/-- A map of the largest size stands at a place, and at no place before it. -/
def Leads (maps : List Correspondence) (place : Nat) : Prop :=
  ∃ m, maps[place]? = some m ∧ Largest maps m ∧ ∀ (i : Nat) n, i < place → maps[i]? = some n → ¬ Same n m

variable {maps : List Correspondence} {m n : Correspondence}

theorem same_iff_perm (first : Keyed m) (second : Keyed n) : Same m n ↔ m.Perm n := by
  rw [List.perm_ext_iff_of_nodup (List.Nodup.of_map _ first) (List.Nodup.of_map _ second)]
  constructor
  · rintro same ⟨name, partner⟩
    rw [← Assoc.get?_eq_some_iff first, ← Assoc.get?_eq_some_iff second, same name]
  · intro entries name
    refine Option.ext fun partner => ?_
    rw [Assoc.get?_eq_some_iff first, Assoc.get?_eq_some_iff second, entries]

theorem sorted_pairwise (m : Correspondence) : (sorted m).Pairwise fun a b => Text.precedes a.1 b.1 :=
  List.pairwise_mergeSort (fun a b c => Text.precedes_trans (s := a.1) (t := b.1) (u := c.1))
    (fun a b => (Bool.or_eq_true _ _).mpr (Text.precedes_total a.1 b.1)) m

/-- Maps have the same sorted form when they have the same entries. -/
theorem sorted_eq_iff (keyed : Keyed m) : sorted m = sorted n ↔ m.Perm n := by
  have forms (m : Correspondence) : (sorted m).Perm m := List.mergeSort_perm m _
  constructor
  · intro same
    exact (forms m).symm.trans (same ▸ forms n)
  · intro perm
    have moved : (sorted m).Perm (sorted n) := (forms m).trans (perm.trans (forms n).symm)
    refine moved.eq_of_pairwise (fun a b inside other below above => ?_) (sorted_pairwise m) (sorted_pairwise n)
    have names : a.1 = b.1 := Text.precedes_antisymm below above
    exact List.inj_on_of_nodup_map keyed ((forms m).mem_iff.mp inside)
      ((forms m).mem_iff.mp (moved.mem_iff.mpr other)) names

theorem sorted_eq_iff_same (first : Keyed m) (second : Keyed n) : sorted m = sorted n ↔ Same m n :=
  (sorted_eq_iff first).trans (same_iff_perm first second).symm

/-! ### Going through a list -/

/-- The elements of a list at the places of a kind, from a place on. -/
structure Picks {α : Type} (xs : List α) (Kind : Nat → Prop) (start : Nat) (places : List Nat) (kept : List α) :
    Prop where
  ordered : places.Pairwise (· < ·)
  exact : ∀ i, i ∈ places ↔ start ≤ i ∧ Kind i
  held : List.Forall₂ (fun i x => xs[i]? = some x) places kept

namespace Picks
variable {α : Type} {xs kept : List α} {x : α} {Kind : Nat → Prop} {start : Nat} {places : List Nat}

theorem skip (picks : Picks xs Kind (start + 1) places kept) (other : ¬ Kind start) :
    Picks xs Kind start places kept where
  ordered := picks.ordered
  exact i := by
    rw [picks.exact]
    refine ⟨fun ⟨bound, kind⟩ => ⟨by omega, kind⟩, fun ⟨bound, kind⟩ => ⟨?_, kind⟩⟩
    have : i ≠ start := fun same => other (same ▸ kind)
    omega
  held := picks.held

theorem take (picks : Picks xs Kind (start + 1) places kept) (kind : Kind start) (found : xs[start]? = some x) :
    Picks xs Kind start (start :: places) (x :: kept) where
  ordered := List.pairwise_cons.mpr ⟨fun i listed => ((picks.exact i).mp listed).1, picks.ordered⟩
  exact i := by
    rw [List.mem_cons, picks.exact]
    constructor
    · rintro (rfl | ⟨bound, kind⟩)
      · exact ⟨Nat.le_refl _, kind⟩
      · exact ⟨by omega, kind⟩
    · rintro ⟨bound, kind⟩
      by_cases here : i = start
      · exact .inl here
      · exact .inr ⟨by omega, kind⟩
  held := .cons found picks.held

/-- What holds of any element and a later one at a place of the kind holds of those that are picked. -/
theorem pairwise (picks : Picks xs Kind start places kept) {R : α → α → Prop}
    (related : ∀ (i j : Nat) x y, i < j → xs[i]? = some x → xs[j]? = some y → Kind j → R x y) : kept.Pairwise R := by
  obtain ⟨ordered, exact, held⟩ := picks
  replace exact : ∀ i ∈ places, Kind i := fun i listed => ((exact i).mp listed).2
  induction held with
  | nil => exact .nil
  | @cons i x places kept first others ih =>
    obtain ⟨below, ordered⟩ := List.pairwise_cons.mp ordered
    have kinds : ∀ j ∈ places, Kind j := fun j listed => exact j (List.mem_cons_of_mem i listed)
    refine List.pairwise_cons.mpr ⟨fun y member => ?_, ih ordered kinds⟩
    obtain ⟨j, listed, found⟩ := forall₂_partner others.flip member
    exact related i j x y (below j listed) first found (kinds j listed)

end Picks

section Forms
variable {p : Correspondence → Bool} {before rest : List Correspondence} {seen : Std.HashSet Correspondence}

/-- A map that passes a test stands at a place, and none that passes it and has the same form stands before. -/
def First (p : Correspondence → Bool) (maps : List Correspondence) (place : Nat) : Prop :=
  ∃ m, maps[place]? = some m ∧ p m = true ∧
    ∀ (i : Nat) n, i < place → maps[i]? = some n → p n = true → sorted n ≠ sorted m

/-- What was seen are the forms of the maps that pass a test. -/
def Seen (p : Correspondence → Bool) (seen : Std.HashSet Correspondence) (maps : List Correspondence) : Prop :=
  ∀ form, seen.contains form = true ↔ ∃ n ∈ maps, p n = true ∧ sorted n = form

theorem exists_snoc {form : Correspondence} : (∃ n ∈ before ++ [m], p n = true ∧ sorted n = form) ↔
    (∃ n ∈ before, p n = true ∧ sorted n = form) ∨ p m = true ∧ sorted m = form := by
  simp only [List.mem_append, List.mem_singleton, or_and_right, exists_or, exists_eq_left]

theorem Seen.snoc (known : Seen p seen before)
    (old : p m = true → seen.contains (sorted m) = true) : Seen p seen (before ++ [m]) := by
  intro form
  rw [exists_snoc, ← known form]
  refine ⟨.inl, fun held => held.elim id ?_⟩
  rintro ⟨passed, rfl⟩
  exact old passed

theorem Seen.insert (known : Seen p seen before) (passed : p m = true) :
    Seen p (seen.insert (sorted m)) (before ++ [m]) := by
  intro form
  rw [exists_snoc, ← known form, Std.HashSet.contains_insert, Bool.or_eq_true, beq_iff_eq, or_comm]
  simp only [passed, true_and]

theorem first_here (known : Seen p seen before) : First p (before ++ m :: rest) before.length ↔
    p m = true ∧ ¬ seen.contains (sorted m) = true := by
  have here : (before ++ m :: rest)[before.length]? = some m := by simp
  rw [known]
  constructor
  · rintro ⟨n, found, passed, new⟩
    obtain rfl := Option.some.inj (here.symm.trans found)
    refine ⟨passed, fun ⟨k, member, also, same⟩ => ?_⟩
    obtain ⟨i, inside, rfl⟩ := List.getElem_of_mem member
    exact new i _ inside (by rw [List.getElem?_append_left inside, List.getElem?_eq_getElem inside]) also same
  · rintro ⟨passed, new⟩
    refine ⟨m, here, passed, fun i n earlier found also same => new ?_⟩
    rw [List.getElem?_append_left earlier] at found
    exact ⟨n, List.mem_of_getElem? found, also, same⟩

/-- Going through the rest of a list picks the first places in it, as long as the maps before have been seen. -/
theorem distinct_picks (rest : List Correspondence) (known : Seen p seen before) :
    ∃ places, Picks (before ++ rest) (First p (before ++ rest)) before.length places
      (distinct seen (rest.filter p)) := by
  induction rest generalizing before seen with
  | nil =>
    refine ⟨[], .nil, fun i => ?_, .nil⟩
    simp only [List.not_mem_nil, List.append_nil, false_iff, not_and]
    rintro beyond ⟨m, found, _⟩
    rw [List.getElem?_eq_none beyond] at found
    cases found
  | cons m rest ih =>
    have moved : before ++ [m] ++ rest = before ++ m :: rest := by simp
    have further {now : Std.HashSet Correspondence} (known : Seen p now (before ++ [m])) :
        ∃ places, Picks (before ++ m :: rest) (First p (before ++ m :: rest)) (before.length + 1) places
          (distinct now (rest.filter p)) := by
      simpa only [moved, List.length_append, List.length_singleton] using ih known
    by_cases passed : p m = true
    · rw [List.filter_cons_of_pos passed, distinct]
      by_cases again : seen.contains (sorted m) = true
      · obtain ⟨places, picks⟩ := further (known.snoc fun _ => again)
        rw [if_pos again]
        exact ⟨places, picks.skip fun first => ((first_here known).mp first).2 again⟩
      · obtain ⟨places, picks⟩ := further (known.insert passed)
        rw [if_neg again]
        exact ⟨_, picks.take ((first_here known).mpr ⟨passed, again⟩) (by simp)⟩
    · obtain ⟨places, picks⟩ := further (known.snoc fun other => absurd other passed)
      rw [List.filter_cons_of_neg passed]
      exact ⟨places, picks.skip fun first => passed ((first_here known).mp first).1⟩

end Forms

/-! ### What is kept -/

theorem distinct_sublist (maps : List Correspondence) (seen : Std.HashSet Correspondence) :
    (distinct seen maps).Sublist maps := by
  induction maps generalizing seen with
  | nil => exact .slnil
  | cons m rest ih =>
    rw [distinct]
    split
    · exact (ih seen).cons m
    · exact (ih _).cons_cons m

/-- A map passes the test for its size when none has more entries. -/
theorem largest_iff (member : m ∈ maps) :
    decide ((maps.map List.length).max?.getD 0 ≤ m.length) = true ↔ Largest maps m := by
  rw [decide_eq_true_eq]
  obtain ⟨most, found⟩ : ∃ most, (maps.map List.length).max? = some most :=
    Option.isSome_iff_exists.mp (List.isSome_max?_of_mem (List.mem_map_of_mem member))
  rw [found, Option.getD_some, List.max?_le_iff found]
  exact List.forall_mem_map

/-- What is kept of a list of maps. -/
structure Distilled (maps kept : List Correspondence) : Prop where
  sublist : kept.Sublist maps
  largest : ∀ m ∈ kept, Largest maps m
  once : ∀ m ∈ maps, Largest maps m → ∃! i : Nat, ∃ n, kept[i]? = some n ∧ Same n m
  /-- Of the maps that are the same, the first is kept. -/
  first : ∀ m ∈ maps, Largest maps m → ∃ n ∈ kept, Same n m ∧ ∃ i : Nat, maps[i]? = some n ∧
    ∀ (j : Nat) k, j < i → maps[j]? = some k → ¬ Same k m
  /-- The maps that are kept stand where a map of the largest size comes first, and all those places are theirs. -/
  places : ∃ places, Picks maps (Leads maps) 0 places kept

section Leading
variable {places : List Nat} {kept : List Correspondence} (picks : Picks maps (Leads maps) 0 places kept)
include picks

theorem kept_apart : kept.Pairwise fun m n => ¬ Same m n :=
  picks.pairwise fun i j m n earlier one other leads => by
    obtain ⟨k, found, _, new⟩ := leads
    obtain rfl := Option.some.inj (other.symm.trans found)
    exact new i m earlier one

theorem kept_largest (member : m ∈ kept) : Largest maps m := by
  obtain ⟨i, listed, found⟩ := forall₂_partner picks.held.flip member
  obtain ⟨_, n, also, largest, _⟩ := (picks.exact i).mp listed
  obtain rfl := Option.some.inj (found.symm.trans also)
  exact largest

end Leading

section Keyed
variable (keyed : ∀ m ∈ maps, Keyed m)
include keyed

theorem first_iff_leads {i : Nat} :
    First (fun m => decide ((maps.map List.length).max?.getD 0 ≤ m.length)) maps i ↔ Leads maps i := by
  refine exists_congr fun m => and_congr_right fun found => ?_
  have member := List.mem_of_getElem? found
  rw [largest_iff member]
  refine and_congr_right fun largest => forall₄_congr fun j n earlier also => ?_
  have other := List.mem_of_getElem? also
  rw [largest_iff other, Ne, sorted_eq_iff_same (keyed n other) (keyed m member)]
  refine ⟨fun new same => new (fun k listed => ?_) same, fun new _ => new⟩
  rw [((same_iff_perm (keyed n other) (keyed m member)).mp same).length_eq]
  exact largest k listed

theorem maximalUnique_picks : ∃ places, Picks maps (Leads maps) 0 places (maximalUnique maps) := by
  have nothing : Seen (fun m => decide ((maps.map List.length).max?.getD 0 ≤ m.length)) ∅ [] := by simp [Seen]
  obtain ⟨places, ordered, exact, held⟩ := distinct_picks maps nothing
  exact ⟨places, ordered, fun i => (exact i).trans (and_congr_right fun _ => first_iff_leads keyed), held⟩

/-- Of the maps that are the same as one of the largest size, the first stands at a place where such a map leads. -/
theorem exists_leads (member : m ∈ maps) (largest : Largest maps m) : ∃ (i : Nat) (n : Correspondence),
    maps[i]? = some n ∧ Same n m ∧ Leads maps i ∧ ∀ (j : Nat) k, j < i → maps[j]? = some k → ¬ Same k m := by
  classical
  have somewhere : ∃ i : Nat, ∃ n, maps[i]? = some n ∧ Same n m := by
    obtain ⟨i, found⟩ := List.mem_iff_getElem?.mp member
    exact ⟨i, m, found, fun _ => rfl⟩
  obtain ⟨n, found, same⟩ := Nat.find_spec somewhere
  have before : ∀ (j : Nat) k, j < Nat.find somewhere → maps[j]? = some k → ¬ Same k m :=
    fun j k earlier also equal => Nat.find_min somewhere earlier ⟨k, also, equal⟩
  have other := List.mem_of_getElem? found
  refine ⟨_, n, found, same, ⟨n, found, fun k listed => ?_, fun j k earlier also equal => ?_⟩, before⟩
  · rw [((same_iff_perm (keyed n other) (keyed m member)).mp same).length_eq]
    exact largest k listed
  · exact before j k earlier also fun name => (equal name).trans (same name)

theorem maximalUnique_distilled : Distilled maps (maximalUnique maps) := by
  obtain ⟨places, picks⟩ := maximalUnique_picks keyed
  have first : ∀ m ∈ maps, Largest maps m → ∃ n ∈ maximalUnique maps, Same n m ∧ ∃ i : Nat, maps[i]? = some n ∧
      ∀ (j : Nat) k, j < i → maps[j]? = some k → ¬ Same k m := fun m member largest => by
    obtain ⟨i, n, found, same, leads, before⟩ := exists_leads keyed member largest
    obtain ⟨k, kept, also⟩ := forall₂_partner picks.held ((picks.exact i).mpr ⟨Nat.zero_le _, leads⟩)
    obtain rfl := Option.some.inj (found.symm.trans also)
    exact ⟨n, kept, same, i, found, before⟩
  refine ⟨(distinct_sublist _ _).trans List.filter_sublist, fun m => kept_largest picks, fun m member largest => ?_,
    first, places, picks⟩
  obtain ⟨n, kept, same, _⟩ := first m member largest
  exact unique_place (kept_apart picks) (fun x y one other name => (one name).trans (other name).symm) kept same

/-- What is kept has maps of one size that all differ, so all of it is kept again. -/
theorem maximalUnique_again : maximalUnique (maximalUnique maps) = maximalUnique maps := by
  obtain ⟨places, picks⟩ := maximalUnique_picks keyed
  have listed : maximalUnique maps ⊆ maps := (maximalUnique_distilled keyed).sublist.subset
  have differ : (maximalUnique maps).Pairwise fun m n => ¬ m.Perm n :=
    (kept_apart picks).imp_of_mem fun {m n} one other apart perm =>
      apart ((same_iff_perm (keyed m (listed one)) (keyed n (listed other))).mpr perm)
  have equal : ∀ m ∈ maximalUnique maps, ∀ n ∈ maximalUnique maps, n.length = m.length := fun m one n other =>
    Nat.le_antisymm (kept_largest picks one n (listed other)) (kept_largest picks other m (listed one))
  cases shown : maximalUnique maps with
  | nil => rfl
  | cons m rest =>
    rw [shown] at differ equal
    exact maximalUnique_eq differ (equal m List.mem_cons_self)

end Keyed

/-- Of maps that pair each name once, those of the largest size are kept, each where it first stands, and going through
them again changes nothing. -/
theorem maximalUnique_exact (keyed : ∀ m ∈ maps, Keyed m) :
    Distilled maps (maximalUnique maps) ∧ maximalUnique (maximalUnique maps) = maximalUnique maps :=
  ⟨maximalUnique_distilled keyed, maximalUnique_again keyed⟩

/-- Maps of two sizes, of which the second and the third are the same but for the order of their entries. -/
def pairings : List Correspondence :=
  [[("dial", "knob")], [("dial", "knob"), ("lamp", "bulb")], [("lamp", "bulb"), ("dial", "knob")],
    [("dial", "bulb"), ("lamp", "knob")]]

/-- The smaller map is dropped, and of the two that are the same the first is kept. -/
theorem pairings_distilled : (∀ m ∈ pairings, Keyed m) ∧
    maximalUnique pairings =
      ([[("dial", "knob"), ("lamp", "bulb")], [("dial", "bulb"), ("lamp", "knob")]] : List Correspondence) ∧
    Distilled pairings (maximalUnique pairings) ∧
    maximalUnique (maximalUnique pairings) = maximalUnique pairings := by
  have keyed : ∀ m ∈ pairings, Keyed m := by
    unfold Keyed
    decide
  have largest : pairings.filter (fun m => ((pairings.map List.length).max?.getD 0) ≤ m.length) = pairings.tail := by
    decide
  have second : Keyed [("lamp", "bulb"), ("dial", "knob")] := keyed _ (by decide)
  have first : Keyed [("dial", "knob"), ("lamp", "bulb")] := keyed _ (by decide)
  -- The forms are compared, and these are the same for maps that have the same entries.
  have again : sorted [("lamp", "bulb"), ("dial", "knob")] = sorted [("dial", "knob"), ("lamp", "bulb")] :=
    (sorted_eq_iff second).mpr (by decide)
  have other : sorted [("dial", "knob"), ("lamp", "bulb")] ≠ sorted [("dial", "bulb"), ("lamp", "knob")] := by
    rw [Ne, sorted_eq_iff first]
    decide
  refine ⟨keyed, ?_, maximalUnique_exact keyed⟩
  rw [maximalUnique, largest]
  simp [pairings, distinct, again, other]

end PayloadSchema.Correspondence
