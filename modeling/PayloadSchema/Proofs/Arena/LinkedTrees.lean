import Mathlib.Data.List.Nodup
import Mathlib.Data.List.Perm.Subperm
import PayloadSchema.Arena.Basic

/-! Arenas whose links make a tree: parents and children name each other, no child is listed twice, and every
position leads up to the root. Links are read by position here, and only positions counted from the front lie
inside an arena. -/
namespace PayloadSchema.Arena

variable {α β : Type}

/-- A position that counts from the front to one of so many nodes. -/
def Inside (size : Nat) (p : Position) : Prop := (0 : Int) ≤ p ∧ p < (size : Int)

theorem inside_iff {size : Nat} {p : Position} : Inside size p ↔ ∃ i : Nat, i < size ∧ (i : Position) = p := by
  constructor
  · rintro ⟨front, bound⟩
    exact ⟨Int.toNat p, (Int.toNat_lt front).mpr bound, Int.toNat_of_nonneg front⟩
  · rintro ⟨i, bound, rfl⟩
    exact ⟨Int.natCast_nonneg i, Int.ofNat_lt.mpr bound⟩

theorem inside_length_le {size : Nat} {ps : List Position} (distinct : ps.Nodup)
    (inside : ∀ p ∈ ps, Inside size p) : ps.length ≤ size := by
  have listed : ps ⊆ (List.range size).map fun i : Nat => (i : Position) := by
    intro p member
    obtain ⟨i, bound, rfl⟩ := inside_iff.mp (inside p member)
    exact List.mem_map.mpr ⟨i, List.mem_range.mpr bound, rfl⟩
  simpa using (List.subperm_of_subset distinct listed).length_le

theorem nodeAt_eq_ok_iff {arena : List α} {p : Position} {a : α} :
    nodeAt arena p = .ok a ↔ nodeAt? arena p = some a := by
  unfold nodeAt
  cases nodeAt? arena p <;> simp

theorem nodeAt?_map (f : α → β) (arena : List α) (p : Position) :
    nodeAt? (arena.map f) p = (nodeAt? arena p).map f := by
  unfold nodeAt?
  simp only [List.length_map, List.getElem?_map]
  split
  · rfl
  · split <;> rfl

theorem nodeAt?_inside {arena : List α} {p : Position} (inside : Inside arena.length p) :
    ∃ a ∈ arena, nodeAt? arena p = some a := by
  obtain ⟨i, bound, rfl⟩ := inside_iff.mp inside
  exact ⟨arena[i], List.getElem_mem bound, by rw [nodeAt?_natCast, List.getElem?_eq_getElem bound]⟩

/-- The parent of the node at a position. -/
def parentAt (links : List Links) (p : Position) : Option Position := (nodeAt? links p).bind Links.parent

/-- The children of the node at a position. -/
def childrenAt (links : List Links) (p : Position) : List Position := ((nodeAt? links p).map Links.children).getD []

theorem parentAt_links {nodes : List Node} {p : Position} {n : Node} (found : nodeAt? nodes p = some n) :
    parentAt (nodes.map (·.toLinks)) p = n.parent := by
  simp [parentAt, nodeAt?_map, found]

theorem childrenAt_links {nodes : List Node} {p : Position} {n : Node} (found : nodeAt? nodes p = some n) :
    childrenAt (nodes.map (·.toLinks)) p = n.children := by
  simp [childrenAt, nodeAt?_map, found]

/-- Every listed child lies inside the arena. Parents may be anything. -/
def Closed (links : List Links) : Prop := ∀ l ∈ links, ∀ c ∈ l.children, Inside links.length c

variable {links : List Links} {root p x c : Position} {k : Nat}

theorem closed_children (closed : Closed links) (inside : Inside links.length x) (listed : c ∈ childrenAt links x) :
    Inside links.length c := by
  obtain ⟨l, member, found⟩ := nodeAt?_inside inside
  rw [childrenAt, found] at listed
  exact closed l member c listed

/-- The positions that a descent from the root reaches through children that name their parent. -/
inductive Reached (links : List Links) (root : Position) : Position → Prop where
  | root : Reached links root root
  | child {x c : Position} (above : Reached links root x) (listed : c ∈ childrenAt links x)
      (named : parentAt links c = some x) : Reached links root c

theorem reached_inside (closed : Closed links) (inside : Inside links.length root)
    (reached : Reached links root p) : Inside links.length p := by
  induction reached with
  | root => exact inside
  | child _ listed _ ih => exact closed_children closed ih listed

/-- The positions from which so many steps to the parent lead to the root. -/
inductive Ascends (links : List Links) (root : Position) : Nat → Position → Prop where
  | root : Ascends links root 0 root
  | parent {k : Nat} {p x : Position} (named : parentAt links p = some x) (above : Ascends links root k x) :
      Ascends links root (k + 1) p

theorem reached_ascends (reached : Reached links root p) : ∃ k, Ascends links root k p := by
  induction reached with
  | root => exact ⟨0, .root⟩
  | child _ _ named ih =>
    obtain ⟨k, above⟩ := ih
    exact ⟨k + 1, .parent named above⟩

/-- The number of steps to a root without a parent is determined. -/
theorem ascends_unique (parentless : parentAt links root = none) {j k : Nat}
    (first : Ascends links root j p) (second : Ascends links root k p) : j = k := by
  induction first generalizing k with
  | root =>
    cases second with
    | root => rfl
    | parent named _ => simp [parentless] at named
  | parent named _ ih =>
    cases second with
    | root => simp [parentless] at named
    | parent otherwise above =>
      obtain rfl : _ = _ := Option.some.inj (named.symm.trans otherwise)
      rw [ih above]

/-- The links make a tree with this root. -/
structure IsTree (links : List Links) (root : Position) : Prop where
  parentless : parentAt links root = none
  agree : ∀ x c, Inside links.length c →
    (parentAt links c = some x ↔ Inside links.length x ∧ c ∈ childrenAt links x)
  nodup : ∀ x, Inside links.length x → (childrenAt links x).Nodup
  ascends : ∀ p, Inside links.length p → ∃ k, Ascends links root k p

theorem ascends_inside (tree : IsTree links root) (above : Ascends links root k p) (inside : Inside links.length p) :
    ∃ chain : List Position, chain.length = k + 1 ∧ chain.Nodup ∧
      ∀ q ∈ chain, Inside links.length q ∧ ∃ j ≤ k, Ascends links root j q := by
  induction above with
  | root => exact ⟨[root], rfl, List.nodup_singleton _, by simpa using ⟨inside, Ascends.root⟩⟩
  | @parent k p x named above ih =>
    obtain ⟨chain, length, distinct, below⟩ := ih ((tree.agree x p inside).mp named).1
    refine ⟨p :: chain, by simp [length], List.nodup_cons.mpr ⟨fun member => ?_, distinct⟩, fun q member => ?_⟩
    · obtain ⟨_, j, bound, again⟩ := below p member
      have same := ascends_unique tree.parentless (.parent named above) again
      omega
    · rcases List.mem_cons.mp member with rfl | member
      · exact ⟨inside, k + 1, Nat.le_refl _, .parent named above⟩
      · obtain ⟨qInside, j, bound, qAbove⟩ := below q member
        exact ⟨qInside, j, by omega, qAbove⟩

/-- In a tree there are fewer steps to the root than nodes. -/
theorem ascends_lt_length (tree : IsTree links root) (above : Ascends links root k p)
    (inside : Inside links.length p) : k < links.length := by
  obtain ⟨chain, length, distinct, below⟩ := ascends_inside tree above inside
  have room := inside_length_le distinct fun q member => (below q member).1
  omega

/-- Below every position of a tree there is a leaf, or the position is one itself. -/
theorem leaf_below (closed : Closed links) (tree : IsTree links root) (above : Ascends links root k p)
    (inside : Inside links.length p) :
    ∃ q j, Inside links.length q ∧ childrenAt links q = [] ∧ Ascends links root j q ∧ k ≤ j := by
  -- Every step down leaves fewer levels until there are as many as nodes.
  induction room : links.length - k generalizing k p with
  | zero =>
    have := ascends_lt_length tree above inside
    omega
  | succ room ih =>
    cases children : childrenAt links p with
    | nil => exact ⟨p, k, inside, children, above, Nat.le_refl k⟩
    | cons c rest =>
      have listed : c ∈ childrenAt links p := children ▸ List.mem_cons_self
      have cInside := closed_children closed inside listed
      have named := (tree.agree p c cInside).mpr ⟨inside, listed⟩
      obtain ⟨q, j, qInside, leaf, qAbove, deeper⟩ := ih (.parent named above) cInside (by omega)
      exact ⟨q, j, qInside, leaf, qAbove, by omega⟩

end PayloadSchema.Arena
