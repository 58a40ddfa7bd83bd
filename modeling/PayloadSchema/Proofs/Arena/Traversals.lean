import Mathlib.Data.Set.Card
import PayloadSchema.Proofs.Arena.WalkExactness

/-! What a walk is worth on an arena that need not be a tree. From any start it yields what a descent reaches, each
position once, behind its parent and with everything under it right behind. It can be broken off and continued at any
point, and at its end it tells whether something was skipped, and so whether the links make a tree. -/
namespace PayloadSchema.Walk
open Arena

variable {links : List Links} {root x y p c : Position} {w : Walk} {order : List Position}

/-- The positions under another: from each of them some steps to the parent lead to that one, and none of these steps
is taken from the root. -/
inductive Under (links : List Links) (root x : Position) : Position → Prop where
  | child {c : Position} (reached : Reached links root c) (apart : c ≠ root) (named : parentAt links c = some x) :
      Under links root x c
  | deeper {y c : Position} (above : Under links root x y) (reached : Reached links root c) (apart : c ≠ root)
      (named : parentAt links c = some y) : Under links root x c

/-- What a walk skips: it begins below another node, or it comes to a child that names another parent or to one that
is listed twice. -/
def Skips (links : List Links) (root : Position) : Prop :=
  (parentAt links root).isSome ∨ ∃ x, Reached links root x ∧
    ((∃ c ∈ childrenAt links x, parentAt links c ≠ some x) ∨ ¬ (childrenAt links x).Nodup)

/-- Whoever is reached and names a parent, the root apart, is handed on by that parent. -/
theorem mem_below_iff (reached : Reached links root x) :
    c ∈ below links root x ↔ Reached links root c ∧ c ≠ root ∧ parentAt links c = some x := by
  rw [below, mem_heirs]
  constructor
  · rintro ⟨listed, apart, named⟩
    exact ⟨.child reached listed named, apart, named⟩
  · rintro ⟨found, apart, named⟩
    cases found with
    | root => exact absurd rfl apart
    | child _ listed otherwise =>
      obtain rfl := Option.some.inj (otherwise.symm.trans named)
      exact ⟨listed, apart, named⟩

/-- A descent from two lists is one from the first and then one from the second. -/
theorem descent_append {below : Position → List Position} {first second : List Position}
    (descent : Descent below (first ++ second) order) :
    ∃ front back, order = front ++ back ∧ Descent below first front ∧ Descent below second back := by
  generalize waiting : first ++ second = all at descent
  induction descent generalizing first with
  | done =>
    obtain ⟨rfl, rfl⟩ := List.append_eq_nil_iff.mp waiting
    exact ⟨[], [], rfl, .done, .done⟩
  | @visit x rest order further ih =>
    cases first with
    | nil =>
      obtain rfl : second = x :: rest := waiting
      exact ⟨[], x :: order, rfl, .done, .visit further⟩
    | cons y others =>
      obtain ⟨rfl, rfl⟩ := List.cons.inj waiting
      obtain ⟨front, back, rfl, one, other⟩ := ih (List.append_assoc _ _ _)
      exact ⟨y :: front, back, rfl, .visit one, other⟩

/-- Behind each position of a descent comes the descent from what is below it. -/
theorem descent_behind {below : Position → List Position} {waiting front back : List Position}
    (descent : Descent below waiting order) (cut : order = front ++ x :: back) :
    ∃ sub rest, back = sub ++ rest ∧ Descent below (below x) sub := by
  induction descent generalizing front with
  | done => simp at cut
  | @visit y waiting order further ih =>
    cases front with
    | nil =>
      obtain ⟨rfl, rfl⟩ := List.cons.inj cut
      obtain ⟨sub, rest, rfl, inner, _⟩ := descent_append further
      exact ⟨sub, rest, rfl, inner⟩
    | cons z front => exact ih (List.cons.inj cut).2

/-- A descent comes to what waits and, with each position, to what is below it. -/
theorem descent_closed {below : Position → List Position} {waiting : List Position}
    (descent : Descent below waiting order) :
    (∀ p ∈ waiting, p ∈ order) ∧ ∀ y ∈ order, ∀ c ∈ below y, c ∈ order := by
  induction descent with
  | done => simp
  | @visit x waiting order _ ih =>
    obtain ⟨pending, closed⟩ := ih
    refine ⟨fun p member => ?_, fun y member c child => List.mem_cons_of_mem _ ?_⟩
    · rcases List.mem_cons.mp member with rfl | member
      · exact List.mem_cons_self
      · exact List.mem_cons_of_mem _ (pending p (List.mem_append_right _ member))
    · rcases List.mem_cons.mp member with rfl | member
      · exact pending c (List.mem_append_left _ child)
      · exact closed y member c child

theorem under_reached (under : Under links root x p) : Reached links root p := by
  cases under with
  | child reached _ _ | deeper _ reached _ _ => exact reached

/-- A descent from positions under another stays under it. -/
theorem descent_under {waiting : List Position} (descent : Descent (below links root) waiting order)
    (under : ∀ p ∈ waiting, Under links root x p) : ∀ p ∈ order, Under links root x p := by
  induction descent with
  | done => simp
  | @visit y waiting order _ ih =>
    obtain ⟨here, others⟩ := List.forall_mem_cons.mp under
    refine List.forall_mem_cons.mpr ⟨here, ih fun p member => ?_⟩
    rcases List.mem_append.mp member with child | pending
    · obtain ⟨reached, apart, named⟩ := (mem_below_iff (under_reached here)).mp child
      exact .deeper here reached apart named
    · exact others p pending

/-- The descent from what is below a position comes to what is under it. -/
theorem mem_descent_iff (reached : Reached links root x) {sub : List Position}
    (descent : Descent (below links root) (below links root x) sub) : p ∈ sub ↔ Under links root x p := by
  obtain ⟨pending, closed⟩ := descent_closed descent
  constructor
  · refine descent_under descent (fun c child => ?_) p
    obtain ⟨found, apart, named⟩ := (mem_below_iff reached).mp child
    exact .child found apart named
  · intro under
    induction under with
    | child found apart named => exact pending _ ((mem_below_iff reached).mpr ⟨found, apart, named⟩)
    | deeper above found apart named ih =>
      exact closed _ ih _ ((mem_below_iff (under_reached above)).mpr ⟨found, apart, named⟩)

theorem parents_first_suffix {later earlier : List Position} (ordered : ParentsFirst links root (later ++ earlier)) :
    ParentsFirst links root earlier := by
  induction later with
  | nil => exact ordered
  | cons p rest ih => exact ih ordered.2

/-- Wherever an order with parents first is cut, the parent of the position that comes next is in front of the cut. -/
theorem parents_first_cut (ordered : ParentsFirst links root order.reverse) {front back : List Position}
    (cut : order = front ++ p :: back) :
    (p = root ∨ ∃ x ∈ front, parentAt links p = some x) ∧ ParentsFirst links root front.reverse := by
  have turned : order.reverse = back.reverse ++ (p :: front.reverse) := by simp [cut]
  obtain ⟨next, earlier⟩ := parents_first_suffix (turned ▸ ordered)
  exact ⟨next.imp_right fun ⟨x, known, named⟩ => ⟨x, List.mem_reverse.mp known, named⟩, earlier⟩

/-- A finished walk has noticed exactly what there is to skip. -/
theorem cyclic_iff_skips (sound : w.Sound links root) (finished : w.stack = []) :
    w.cyclic = true ↔ Skips links root := by
  have whole : ∀ x, below links root x = childrenAt links x ↔
      (childrenAt links x).Nodup ∧ ∀ c ∈ childrenAt links x, c ≠ root ∧ parentAt links c = some x :=
    fun _ => heirs_eq_self_iff
  rw [sound.noticed]
  constructor
  · rintro (above | ⟨x, seen, left⟩)
    · exact .inl above
    · by_cases calm : (childrenAt links x).Nodup ∧ ∀ c ∈ childrenAt links x, parentAt links c = some x
      · by_cases own : root ∈ childrenAt links x
        · exact .inl (by rw [calm.2 root own, Option.isSome_some])
        · exact absurd ((whole x).mpr ⟨calm.1, fun c listed => ⟨fun same => own (same ▸ listed), calm.2 c listed⟩⟩) left
      · refine .inr ⟨x, (mem_visited_iff sound finished).mp seen, ?_⟩
        rcases not_and_or.mp calm with twice | strange
        · exact .inr twice
        · push Not at strange
          exact .inl strange
  · rintro (above | ⟨x, reached, fault⟩)
    · exact .inl above
    · refine .inr ⟨x, (mem_visited_iff sound finished).mpr reached, fun same => ?_⟩
      obtain ⟨once, named⟩ := (whole x).mp same
      rcases fault with ⟨c, listed, other⟩ | twice
      · exact other (named c listed).2
      · exact twice once

/-- In a tree a descent from the root reaches every position, and it is enough for a tree that it does where parents
and children name each other. -/
theorem isTree_iff_reached :
    IsTree links root ↔ parentAt links root = none ∧
      (∀ x c, Inside links.length c → (parentAt links c = some x ↔ Inside links.length x ∧ c ∈ childrenAt links x)) ∧
      (∀ x, Inside links.length x → (childrenAt links x).Nodup) ∧
      ∀ p, Inside links.length p → Reached links root p := by
  constructor
  · intro tree
    refine ⟨tree.parentless, tree.agree, tree.nodup, fun p inside => ?_⟩
    obtain ⟨k, above⟩ := tree.ascends p inside
    induction above with
    | root => exact .root
    | parent named _ ih =>
      obtain ⟨higher, listed⟩ := (tree.agree _ _ inside).mp named
      exact .child (ih higher) listed named
  · rintro ⟨parentless, agree, once, every⟩
    exact ⟨parentless, agree, once, fun p inside => reached_ascends (every p inside)⟩

/-- A walk that is about to begin at the root yields this order, wherever it is broken off and continued. -/
structure Yields (links : List Links) (root : Position) (w : Walk) (order : List Position) : Prop where
  rootFirst : order.head? = some root
  once : order.Nodup
  reached : ∀ p, p ∈ order ↔ Reached links root p
  /-- There are as many steps as positions that are reached. -/
  counted : order.length = {p | Reached links root p}.ncard
  parentFirst : ∀ (front : List Position) (p : Position) (back : List Position), order = front ++ p :: back →
    p ≠ root → ∃ x ∈ front, parentAt links p = some x
  /-- What is under a position comes right behind it, without anything in between. -/
  together : ∀ (front : List Position) (x : Position) (back : List Position), order = front ++ x :: back →
    ∃ sub rest, back = sub ++ rest ∧ ∀ p, p ∈ sub ↔ Under links root x p
  /-- Any number of steps can be taken, and then all that remain. Nothing is left after that, everything is counted,
  and what was skipped has been noticed. -/
  stepwise : ∀ count, ∃ taken final, w.steps links count = .ok taken ∧ taken.map Prod.fst = order.take count ∧
    (w.last taken).remaining links = .ok (order.drop count, final) ∧ final.next links = .ok none ∧
    final.visitedCount = {p | Reached links root p}.ncard ∧ (final.cyclic = true ↔ Skips links root) ∧
    (final.cyclic = false ∧ final.visitedCount = links.length ↔ IsTree links root)
  /-- The links make a tree when parents and children name each other, no child is listed twice, the root has no parent
  and the order has every position. -/
  spanning : IsTree links root ↔ parentAt links root = none ∧
    (∀ x c, Inside links.length c → (parentAt links c = some x ↔ Inside links.length x ∧ c ∈ childrenAt links x)) ∧
    (∀ x, Inside links.length x → (childrenAt links x).Nodup) ∧ ∀ p, Inside links.length p → p ∈ order

/-- The number of positions that are reached is that of any list of them without repetitions. -/
theorem reached_ncard (once : order.Nodup) (reached : ∀ p, p ∈ order ↔ Reached links root p) :
    {p | Reached links root p}.ncard = order.length := by
  have same : {p | Reached links root p} = (order.toFinset : Set Position) := by
    ext p
    simp [reached]
  rw [same, Set.ncard_coe_finset, List.toFinset_card_of_nodup once]

/-- From any start in any arena whose children lie inside it, a walk yields the order of a descent. -/
theorem start_yields (closed : Closed links) (inside : Inside links.length root) :
    ∃ w order, start links (some root) = .ok w ∧ Yields links root w order := by
  obtain ⟨w, begun, sound, stack, visited⟩ := start_sound inside
  obtain ⟨order, final, _, ended, finished, seen, descent⟩ := remaining_sound closed inside sound
  rw [visited, List.append_nil] at seen
  have once : order.Nodup := by simpa [finished, seen] using ended.fresh
  have reached : ∀ p, p ∈ order ↔ Reached links root p := fun p => by
    rw [← mem_visited_iff ended finished, seen, List.mem_reverse]
  have counted := reached_ncard once reached
  refine ⟨w, order, begun, ?_, once, reached, counted.symm, fun front p back cut apart => ?_,
    fun front x back cut => ?_, fun count => ?_, by simp only [isTree_iff_reached, reached]⟩
  · rw [stack] at descent
    cases descent
    rfl
  · exact (parents_first_cut (seen ▸ ended.parentsFirst) cut).1.resolve_left apart
  · obtain ⟨sub, rest, parts, inner⟩ := descent_behind descent cut
    have xReached := (reached x).mp (cut ▸ List.mem_append_right _ List.mem_cons_self)
    exact ⟨sub, rest, parts, fun p => mem_descent_iff xReached inner⟩
  · obtain ⟨taken, ran, first, middle, further⟩ := steps_along closed inside sound descent count
    obtain ⟨rest, last, finishing, lastSound, lastFinished, _, others⟩ := remaining_sound closed inside middle
    obtain rfl := descent_unique others further
    have all : last.visitedCount = {p | Reached links root p}.ncard := by
      have fresh : last.visited.Nodup := by simpa [lastFinished] using lastSound.fresh
      exact (reached_ncard fresh fun p => mem_visited_iff lastSound lastFinished).symm
    exact ⟨taken, last, ran, first, finishing, by simp [next, lastFinished], all,
      cyclic_iff_skips lastSound lastFinished, accepts_iff closed inside lastSound lastFinished⟩

/-- Four nodes that make no tree: the first lists a child twice, the second and the third list nodes that do not name
them, and the last is its own parent. -/
def tangle : List Links := [⟨none, [1, 2, 1]⟩, ⟨some 0, [2]⟩, ⟨some 0, [0]⟩, ⟨some 3, []⟩]

/-- The walk over the tangle comes to three of its four nodes. -/
theorem tangle_walked : Closed tangle ∧ Inside tangle.length 0 ∧
    ∃ w, start tangle (some 0) = .ok w ∧ Yields tangle 0 w [0, 2, 1] := by
  have closed : Closed tangle := by simp [Closed, tangle, Inside]
  have inside : Inside tangle.length 0 := by simp [tangle, Inside]
  obtain ⟨w, order, begun, yields⟩ := start_yields closed inside
  have ran : (whole tangle 0).toOption.map Prod.fst = some [0, 2, 1] := by decide
  obtain ⟨taken, final, _, nothing, rest, _⟩ := yields.stepwise 0
  obtain rfl := List.map_eq_nil_iff.mp nothing
  rw [last_nil, List.drop_zero] at rest
  simp only [whole, begun, rest, Bind.bind, Except.bind, Except.toOption, Option.map_some, Option.some.injEq] at ran
  exact ⟨closed, inside, w, begun, ran ▸ yields⟩

end PayloadSchema.Walk
