import Mathlib.Data.List.Perm.Subperm
import PayloadSchema.Matching.Feasible
import PayloadSchema.Proofs.Matching.Orderings

/-! Rows and columns are paired off exactly when that is possible. A row that can be served adds itself to the owners
and moves others without taking anything from them; a row that cannot be served has asked for columns whose owners,
together with the row, want nothing else. -/
namespace PayloadSchema.Pairing

variable {mask : Mask} {row : Nat} {s t : Search} {levels : Nat}

/-- A state in which columns are owned once, by rows that may have them. -/
structure Legal (mask : Mask) (s : Search) : Prop where
  keys : (s.owners.map Prod.fst).Nodup
  allowed : ∀ j r, (j, r) ∈ s.owners → j < mask.columns ∧ mask.allows r j
  asked : s.asked.Nodup
  bounded : ∀ j ∈ s.asked, j < mask.columns

/-- A row has got a column. What was asked for before stays with its owner. -/
structure Served (mask : Mask) (row : Nat) (s t : Search) : Prop where
  legal : Legal mask t
  rows : (t.owners.map Prod.snd).Perm (row :: s.owners.map Prod.snd)
  kept : ∀ j ∈ s.asked, Assoc.get? t.owners j = Assoc.get? s.owners j

/-- All columns that a row may have were asked for. -/
def Wants (mask : Mask) (row : Nat) (asked : List Nat) : Prop :=
  ∀ k < mask.columns, mask.allows row k → k ∈ asked

/-- A row has got none of some columns, and neither has any owner of a column that was asked for on the way. -/
structure Refused (mask : Mask) (row : Nat) (columns : List Nat) (s t : Search) : Prop where
  legal : Legal mask t
  owners : t.owners = s.owners
  grown : s.asked <:+ t.asked
  wanted : ∀ j ∈ columns, mask.allows row j → j ∈ t.asked
  closed : ∀ j ∈ t.asked, j ∉ s.asked → ∃ r, Assoc.get? s.owners j = some r ∧ Wants mask r t.asked

/-- What an attempt to serve a row comes to. -/
def Attempt (mask : Mask) (row : Nat) (columns : List Nat) (s : Search) : Bool × Search → Prop
  | (true, t) => Served mask row s t
  | (false, t) => Refused mask row columns s t

theorem asked_length_le (legal : Legal mask s) : s.asked.length ≤ mask.columns := by
  have listed : s.asked ⊆ List.range mask.columns := fun j member => List.mem_range.mpr (legal.bounded j member)
  simpa using (List.subperm_of_subset legal.asked listed).length_le

theorem ask_legal (legal : Legal mask s) {j : Nat} (fresh : j ∉ s.asked) (bound : j < mask.columns) :
    Legal mask { s with asked := j :: s.asked } where
  keys := legal.keys
  allowed := legal.allowed
  asked := List.nodup_cons.mpr ⟨fresh, legal.asked⟩
  bounded := List.forall_mem_cons.mpr ⟨bound, legal.bounded⟩

theorem give_legal (legal : Legal mask s) {j : Nat} (bound : j < mask.columns) (allowed : mask.allows row j) :
    Legal mask { s with owners := Assoc.put s.owners j row } where
  keys := Assoc.put_nodup s.owners j row legal.keys
  allowed k r member := by
    rcases Assoc.mem_put member with same | known
    · obtain ⟨rfl, rfl⟩ := Prod.mk.inj same
      exact ⟨bound, allowed⟩
    · exact legal.allowed k r known
  asked := legal.asked
  bounded := legal.bounded

/-- A free column is taken. -/
theorem take_free (legal : Legal mask s) {j : Nat} (fresh : j ∉ s.asked) (bound : j < mask.columns)
    (allowed : mask.allows row j) (free : Assoc.get? s.owners j = none) :
    Served mask row s { asked := j :: s.asked, owners := Assoc.put s.owners j row } where
  legal := give_legal (ask_legal legal fresh bound) bound allowed
  rows := by
    have absent : j ∉ s.owners.map Prod.fst := by
      rw [← Assoc.isSome_get?_iff, free]
      simp
    simp only [Assoc.put_of_fresh absent, List.map_append, List.map_cons, List.map_nil]
    exact List.perm_append_singleton row _
  kept k asked := by
    have apart : j ≠ k := fun same => fresh (same ▸ asked)
    rw [Assoc.get?_put, if_neg apart]

/-- A column is taken whose owner has moved to another. -/
theorem take_moved {j owner : Nat} (fresh : j ∉ s.asked) (bound : j < mask.columns)
    (allowed : mask.allows row j) (owned : Assoc.get? s.owners j = some owner)
    (moved : Served mask owner { s with asked := j :: s.asked } t) :
    Served mask row s { t with owners := Assoc.put t.owners j row } where
  legal := give_legal moved.legal bound allowed
  rows := by
    have still : Assoc.get? t.owners j = some owner := (moved.kept j List.mem_cons_self).trans owned
    have exchanged := (Assoc.put_values still row).trans (moved.rows.cons row)
    exact (exchanged.trans (List.Perm.swap owner row _)).cons_inv
  kept k asked := by
    have apart : j ≠ k := fun same => fresh (same ▸ asked)
    rw [Assoc.get?_put, if_neg apart]
    exact moved.kept k (List.mem_cons_of_mem j asked)

/-- A column that is not allowed or was asked for before is passed over. -/
theorem attempt_skip {j : Nat} {columns : List Nat} {answer : Bool × Search}
    (skipped : mask.allows row j → j ∈ s.asked) (attempt : Attempt mask row columns s answer) :
    Attempt mask row (j :: columns) s answer := by
  obtain ⟨success, t⟩ := answer
  cases success with
  | true => exact attempt
  | false =>
    obtain ⟨legal, owners, grown, wanted, closed⟩ := attempt
    refine ⟨legal, owners, grown, List.forall_mem_cons.mpr ⟨fun allowed => ?_, wanted⟩, closed⟩
    exact grown.subset (skipped allowed)

/-- A column whose owner cannot move is given up. -/
theorem attempt_next {j owner : Nat} {columns : List Nat} {answer : Bool × Search}
    (owned : Assoc.get? s.owners j = some owner)
    (stuck : Refused mask owner (List.range mask.columns) { s with asked := j :: s.asked } t)
    (attempt : Attempt mask row columns t answer) : Attempt mask row (j :: columns) s answer := by
  obtain ⟨success, u⟩ := answer
  have grown : s.asked <:+ t.asked := (List.suffix_cons j s.asked).trans stuck.grown
  cases success with
  | true =>
    obtain ⟨legal, rows, kept⟩ := attempt
    refine ⟨legal, by rwa [stuck.owners] at rows, fun k asked => ?_⟩
    rw [kept k (grown.subset asked), stuck.owners]
  | false =>
    obtain ⟨legal, owners, more, wanted, closed⟩ := attempt
    have asked_j : j ∈ u.asked := more.subset (stuck.grown.subset List.mem_cons_self)
    refine ⟨legal, owners.trans stuck.owners, grown.trans more,
      List.forall_mem_cons.mpr ⟨fun _ => asked_j, wanted⟩, fun k asked fresh => ?_⟩
    by_cases before : k ∈ t.asked
    · by_cases same : k = j
      · subst same
        refine ⟨owner, owned, fun i bound allowed => more.subset ?_⟩
        exact stuck.wanted i (List.mem_range.mpr bound) allowed
      · obtain ⟨r, holds, wants⟩ := stuck.closed k before (by simp [same, fresh])
        exact ⟨r, holds, fun i bound allowed => more.subset (wants i bound allowed)⟩
    · obtain ⟨r, holds, wants⟩ := closed k asked before
      exact ⟨r, stuck.owners ▸ holds, wants⟩

/-- Trying columns one after another serves the row or asks for all that it may have. -/
theorem try_columns {move : Nat → Search → Bool × Search}
    (moves : ∀ owner u, Legal mask u → mask.columns + 1 ≤ levels + u.asked.length →
      Attempt mask owner (List.range mask.columns) u (move owner u))
    (columns : List Nat) (bounds : ∀ j ∈ columns, j < mask.columns) (legal : Legal mask s)
    (enough : mask.columns + 1 ≤ levels + 1 + s.asked.length) :
    Attempt mask row columns s (tryColumns mask.allows move row columns s) := by
  induction columns generalizing s with
  | nil =>
    exact ⟨legal, rfl, List.suffix_rfl, fun _ none => absurd none List.not_mem_nil,
      fun _ asked fresh => absurd asked fresh⟩
  | cons j rest ih =>
    have bound := bounds j List.mem_cons_self
    have others := fun k member => bounds k (List.mem_cons_of_mem j member)
    by_cases open_ : mask.allows row j = true ∧ j ∉ s.asked
    · obtain ⟨allowed, fresh⟩ := open_
      have asked := ask_legal legal fresh bound
      have room : mask.columns + 1 ≤ levels + (j :: s.asked).length := by rw [List.length_cons]; omega
      have entered : (mask.allows row j && !s.asked.contains j) = true := by simp [allowed, fresh]
      rw [tryColumns, if_pos entered]
      cases owned : Assoc.get? s.owners j with
      | none =>
        simp only [owned]
        exact take_free legal fresh bound allowed owned
      | some owner =>
        have attempt := moves owner { s with asked := j :: s.asked } asked room
        simp only [owned]
        cases answer : move owner { s with asked := j :: s.asked } with
        | mk success t =>
          rw [answer] at attempt
          cases success with
          | true => exact take_moved fresh bound allowed owned attempt
          | false =>
            have longer := attempt.grown.length_le
            rw [List.length_cons] at longer
            exact attempt_next owned attempt (ih others attempt.legal (by omega))
    · have skipped : mask.allows row j → j ∈ s.asked := fun allowed => by
        by_contra fresh
        exact open_ ⟨allowed, fresh⟩
      have passed : (mask.allows row j && !s.asked.contains j) = false := by
        cases allowed : mask.allows row j with
        | false => rfl
        | true => simpa using skipped allowed
      rw [tryColumns, passed]
      exact attempt_skip skipped (ih others legal enough)

/-- Looking for a column serves the row or asks for all that it may have. Levels never run out, since each asks for
another column. -/
theorem seek_attempt (legal : Legal mask s) (enough : mask.columns + 1 ≤ levels + s.asked.length) :
    Attempt mask row (List.range mask.columns) s (seek mask levels row s) := by
  induction levels generalizing row s with
  | zero =>
    have := asked_length_le legal
    omega
  | succ levels ih =>
    exact try_columns (fun _ _ => ih) _ (fun _ => List.mem_range.mp) legal enough

/-- Some rows want fewer columns than they are. -/
def Blocked (mask : Mask) (rows : List Nat) : Prop :=
  ∃ many few : List Nat, many.Nodup ∧ many ⊆ rows ∧ few.length < many.length ∧ ∀ r ∈ many, Wants mask r few

/-- A row that is refused wants the same columns as those that own them all. -/
theorem refused_blocked {owners : List (Nat × Nat)} (distinct : (owners.map Prod.snd).Nodup)
    (fresh : row ∉ owners.map Prod.snd)
    (refused : Refused mask row (List.range mask.columns) { owners := owners } t) :
    Blocked mask (row :: owners.map Prod.snd) := by
  obtain ⟨legal, same, _, wanted, closed⟩ := refused
  simp only at same closed
  have keys : (owners.map Prod.fst).Nodup := same ▸ legal.keys
  let held := owners.filter fun entry => entry.1 ∈ t.asked
  have heldKeys : (held.map Prod.fst).Perm t.asked := by
    apply (List.perm_ext_iff_of_nodup (keys.sublist (List.filter_sublist.map _)) legal.asked).mpr
    intro j
    simp only [List.mem_map, List.mem_filter, decide_eq_true_eq]
    constructor
    · rintro ⟨entry, ⟨_, asked⟩, rfl⟩
      exact asked
    · intro asked
      obtain ⟨r, owned, _⟩ := closed j asked List.not_mem_nil
      exact ⟨(j, r), ⟨(Assoc.get?_eq_some_iff keys).mp owned, asked⟩, rfl⟩
  have size := heldKeys.length_eq
  refine ⟨row :: held.map Prod.snd, t.asked, List.nodup_cons.mpr ⟨fun again => ?_, ?_⟩, ?_, ?_, fun r member => ?_⟩
  · exact fresh ((List.filter_sublist.map _).subset again)
  · exact distinct.sublist (List.filter_sublist.map _)
  · exact List.cons_subset_cons row (List.filter_sublist.map _).subset
  · simp only [List.length_map, List.length_cons] at size ⊢
    omega
  · rcases List.mem_cons.mp member with rfl | owner
    · exact fun k bound => wanted k (List.mem_range.mpr bound)
    · obtain ⟨⟨j, r⟩, known, rfl⟩ := List.mem_map.mp owner
      obtain ⟨entry, asked⟩ := List.mem_filter.mp known
      obtain ⟨o, owned, wants⟩ := closed j (by simpa using asked) List.not_mem_nil
      obtain rfl := Option.some.inj (((Assoc.get?_eq_some_iff keys).mpr entry).symm.trans owned)
      exact wants

/-- Serving rows gives each of them a column of its own, or some of them cannot have one. -/
theorem serve_outcome {owners : List (Nat × Nat)} {rows : List Nat} (legal : Legal mask { owners := owners })
    (distinct : (owners.map Prod.snd ++ rows).Nodup) :
    (∃ given, serve mask owners rows = some given ∧ Legal mask { owners := given } ∧
      (given.map Prod.snd).Perm (owners.map Prod.snd ++ rows)) ∨
      (serve mask owners rows = none ∧ Blocked mask (owners.map Prod.snd ++ rows)) := by
  induction rows generalizing owners with
  | nil => exact .inl ⟨owners, rfl, legal, by simp⟩
  | cons row rest ih =>
    have attempt : Attempt mask row (List.range mask.columns) { owners := owners }
        (seek mask (mask.columns + 1) row { owners := owners }) := seek_attempt legal (Nat.le_add_right _ _)
    have moved : (owners.map Prod.snd ++ row :: rest).Perm (row :: owners.map Prod.snd ++ rest) := List.perm_middle
    have apart := moved.nodup_iff.mp distinct
    cases answer : seek mask (mask.columns + 1) row { owners := owners } with
    | mk success t =>
      rw [answer] at attempt
      cases success with
      | true =>
        obtain ⟨legal, rows, _⟩ := attempt
        have along := (rows.append_right rest).trans moved.symm
        have outcome := ih ⟨legal.keys, legal.allowed, List.nodup_nil, by simp⟩ (along.nodup_iff.mpr distinct)
        simp only [serve, answer]
        rcases outcome with ⟨given, ran, ended, all⟩ | ⟨ran, many, few, once, among, fewer, wants⟩
        · exact .inl ⟨given, ran, ended, all.trans along⟩
        · exact .inr ⟨ran, many, few, once, fun r member => along.subset (among member), fewer, wants⟩
      | false =>
        obtain ⟨many, few, once, among, fewer, wants⟩ :=
          refused_blocked (apart.sublist (List.sublist_append_left _ _)).of_cons
            (List.nodup_cons.mp (apart.sublist (List.sublist_append_left _ _))).1 attempt
        refine .inr
          ⟨by simp only [serve, answer], many, few, once, fun r member => moved.symm.subset ?_, fewer, wants⟩
        exact List.mem_append_left rest (among member)

end PayloadSchema.Pairing

namespace PayloadSchema.Mask
open Pairing Arrangements

variable {mask : Mask}

/-- A permutation that suits the mask gives no rows fewer columns than they are. -/
theorem suits_not_blocked {order : List Nat} (perm : order.Perm (List.range mask.columns))
    (suits : suits mask.allows 0 order) : ¬ Blocked mask (List.range mask.columns) := by
  rintro ⟨many, few, once, among, fewer, wants⟩
  have size := perm.length_eq
  rw [List.length_range] at size
  have placed : ∀ r ∈ many, ∃ column, order[r]? = some column := fun r member => by
    have bound := List.mem_range.mp (among member)
    exact ⟨order[r], List.getElem?_eq_getElem (by omega)⟩
  have taken : (many.map fun r => order[r]?).Nodup := by
    apply once.map_on
    intro r member r' member' same
    have bound := List.mem_range.mp (among member)
    exact (List.getElem?_inj (by omega) (perm.nodup_iff.mpr List.nodup_range)).mp same
  have listed : (many.map fun r => order[r]?) ⊆ few.map some := by
    intro column member
    obtain ⟨r, known, rfl⟩ := List.mem_map.mp member
    obtain ⟨column, found⟩ := placed r known
    have bound := List.mem_range.mp (perm.subset (List.mem_of_getElem? found))
    have allowed := suits_iff.mp suits r column found
    rw [Nat.zero_add] at allowed
    exact found ▸ List.mem_map_of_mem (wants r known column bound allowed)
  have room := (List.subperm_of_subset taken listed).length_le
  simp only [List.length_map] at room
  omega

/-- Rows that all own a column make a permutation that suits the mask. -/
theorem order_of_owners {given : List (Nat × Nat)} (square : mask.rows = mask.columns)
    (legal : Legal mask { owners := given }) (rows : (given.map Prod.snd).Perm (List.range mask.rows)) :
    ∃ order, order.Perm (List.range mask.rows) ∧ suits mask.allows 0 order := by
  let back := given.map Prod.swap
  have backKeys : (back.map Prod.fst).Perm (List.range mask.rows) := by
    have same : back.map Prod.fst = given.map Prod.snd := by simp [back]
    exact same ▸ rows
  have distinct : (back.map Prod.fst).Nodup := backKeys.nodup_iff.mpr List.nodup_range
  have owned : ∀ r < mask.rows, ∃ j, Assoc.get? back r = some j ∧ (j, r) ∈ given := by
    intro r bound
    have known : r ∈ back.map Prod.fst := backKeys.symm.subset (List.mem_range.mpr bound)
    obtain ⟨j, found⟩ := Option.isSome_iff_exists.mp (Assoc.isSome_get?_iff.mpr known)
    obtain ⟨entry, member, same⟩ := List.mem_map.mp ((Assoc.get?_eq_some_iff distinct).mp found)
    exact ⟨j, found, by rwa [← Prod.swap_swap entry, same] at member⟩
  let column := fun r => (Assoc.get? back r).getD 0
  have holds : ∀ r < mask.rows, (column r, r) ∈ given := by
    intro r bound
    obtain ⟨j, found, member⟩ := owned r bound
    simpa [column, found] using member
  refine ⟨(List.range mask.rows).map column, ?_, suits_iff.mpr fun i element found => ?_⟩
  · have apart : ((List.range mask.rows).map column).Nodup := by
      apply List.nodup_range.map_on
      intro r first r' second same
      have one := (Assoc.get?_eq_some_iff legal.keys).mpr (holds r (List.mem_range.mp first))
      have other := (Assoc.get?_eq_some_iff legal.keys).mpr (holds r' (List.mem_range.mp second))
      rw [same] at one
      exact Option.some.inj (one.symm.trans other)
    refine (List.subperm_of_subset apart fun j member => ?_).perm_of_length_le (by simp)
    obtain ⟨r, bound, rfl⟩ := List.mem_map.mp member
    exact List.mem_range.mpr (square ▸ (legal.allowed _ r (holds r (List.mem_range.mp bound))).1)
  · simp only [List.getElem?_map, Option.map_eq_some_iff, List.getElem?_eq_some_iff, List.getElem_range,
      List.length_range] at found
    obtain ⟨_, ⟨bound, rfl⟩, rfl⟩ := found
    rw [Nat.zero_add]
    exact (legal.allowed _ i (holds i bound)).2

/-- A pairing is found exactly when some permutation puts every column where a row may have it. -/
theorem hasPerfectMatching_iff :
    mask.hasPerfectMatching ↔
      mask.rows = mask.columns ∧ ∃ order, order.Perm (List.range mask.rows) ∧ suits mask.allows 0 order := by
  rw [hasPerfectMatching, Bool.and_eq_true, decide_eq_true_eq]
  apply and_congr_right
  intro square
  have legal : Legal mask { owners := [] } := ⟨List.nodup_nil, by simp, List.nodup_nil, by simp⟩
  have distinct : (([] : List (Nat × Nat)).map Prod.snd ++ List.range mask.rows).Nodup := List.nodup_range
  rcases serve_outcome legal distinct with ⟨given, ran, ended, rows⟩ | ⟨ran, blocked⟩
  · rw [ran]
    simp only [Option.isSome_some, true_iff]
    exact order_of_owners square ended rows
  · rw [ran]
    simp only [Option.isSome_none, Bool.false_eq_true, false_iff, not_exists, not_and]
    intro order perm suits
    rw [List.map_nil, List.nil_append, square] at blocked
    exact suits_not_blocked (square ▸ perm) suits blocked

end PayloadSchema.Mask
