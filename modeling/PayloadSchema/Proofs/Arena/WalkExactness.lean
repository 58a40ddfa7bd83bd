import Mathlib.Data.List.Dedup
import Mathlib.Data.List.Perm.Subperm
import PayloadSchema.Arena.Walk
import PayloadSchema.Proofs.Arena.LinkedTrees

/-! A walk over any arena whose children stay inside it reaches every position that a descent from the root
reaches, each once, in the order of a recursive descent. It is without a skipped child and reaches the whole arena
exactly when the links make a tree. -/
namespace PayloadSchema.Walk
open Arena

variable {links : List Links} {root x p c : Position} {w : Walk}

/-- The children that a position hands on: those that name it as their parent, other than the root. Of a child
that is listed more than once the last mention counts. -/
def heirs (links : List Links) (root x : Position) (listed : List Position) : List Position :=
  (listed.filter fun c => c ≠ root ∧ parentAt links c = some x).dedup

/-- The children that are visited below a position. -/
def below (links : List Links) (root x : Position) : List Position := heirs links root x (childrenAt links x)

theorem mem_heirs {listed : List Position} :
    c ∈ heirs links root x listed ↔ c ∈ listed ∧ c ≠ root ∧ parentAt links c = some x := by
  simp [heirs]

theorem heirs_nodup (listed : List Position) : (heirs links root x listed).Nodup := List.nodup_dedup _

theorem heirs_length_le (listed : List Position) : (heirs links root x listed).length ≤ listed.length :=
  ((List.dedup_sublist _).trans List.filter_sublist).length_le

/-- Nothing is left out exactly when every child is admitted and none is listed twice. -/
theorem heirs_eq_self_iff {listed : List Position} :
    heirs links root x listed = listed ↔
      listed.Nodup ∧ ∀ c ∈ listed, c ≠ root ∧ parentAt links c = some x := by
  constructor
  · intro same
    refine ⟨same ▸ heirs_nodup listed, fun c member => ?_⟩
    rw [← same] at member
    exact (mem_heirs.mp member).2
  · rintro ⟨distinct, admitted⟩
    have kept : listed.filter (fun c => c ≠ root ∧ parentAt links c = some x) = listed :=
      List.filter_eq_self.mpr fun c member => by simpa using admitted c member
    rw [heirs, kept, List.dedup_eq_self.mpr distinct]

/-- An admitted child goes in front of the others unless it is mentioned again behind. -/
theorem heirs_cons (listed : List Position) :
    heirs links root x (c :: listed) =
      if c ≠ root ∧ parentAt links c = some x ∧ c ∉ heirs links root x listed
        then c :: heirs links root x listed else heirs links root x listed := by
  by_cases admitted : c ≠ root ∧ parentAt links c = some x
  · by_cases again : c ∈ listed
    · have member : c ∈ heirs links root x listed := mem_heirs.mpr ⟨again, admitted⟩
      simp only [member, not_true_eq_false, and_false, if_false]
      rw [heirs, List.filter_cons_of_pos (by simpa using admitted),
        List.dedup_cons_of_mem (by simpa using ⟨again, admitted⟩), heirs]
    · have fresh : c ∉ heirs links root x listed := fun member => again (mem_heirs.mp member).1
      rw [if_pos ⟨admitted.1, admitted.2, fresh⟩, heirs, List.filter_cons_of_pos (by simpa using admitted),
        List.dedup_cons_of_notMem (by simp [again]), heirs]
  · rw [if_neg fun admits => admitted ⟨admits.1, admits.2.1⟩, heirs,
      List.filter_cons_of_neg (by simpa using admitted), heirs]

theorem schedule_inside (inside : Inside links.length c) :
    schedule links x w c =
      .ok (if c ∈ w.visited ∨ c ∈ w.stack ∨ parentAt links c ≠ some x then { w with cyclic := true }
        else { w with stack := c :: w.stack }) := by
  obtain ⟨l, _, found⟩ := nodeAt?_inside inside
  have parent : parentAt links c = l.parent := by simp [parentAt, found]
  simp only [schedule, nodeAt_eq_ok_iff.mpr found, parent, Bind.bind, Except.bind, Pure.pure, Except.pure,
    Bool.or_eq_true, List.contains_iff_mem, decide_eq_true_eq, or_assoc]
  split <;> rfl

/-- When no child that names this parent is known yet, the root apart, scheduling lets exactly the heirs wait and
notices whether a child was left out. -/
theorem schedule_children (known : ∀ c, parentAt links c = some x → (c ∈ w.visited ∨ c ∈ w.stack ↔ c = root))
    (listed : List Position) (inside : ∀ c ∈ listed, Inside links.length c) :
    listed.reverse.foldlM (schedule links x) w =
      .ok { w with
        stack := heirs links root x listed ++ w.stack
        cyclic := w.cyclic || decide (heirs links root x listed ≠ listed) } := by
  rw [List.foldlM_reverse]
  induction listed with
  | nil => simp [heirs, Pure.pure, Except.pure]
  | cons c rest ih =>
    have shorter : (heirs links root x rest).length ≤ rest.length := heirs_length_le rest
    have skipped : heirs links root x rest ≠ c :: rest := by
      intro same
      rw [same, List.length_cons] at shorter
      omega
    rw [List.foldrM_cons, ih fun d member => inside d (List.mem_cons_of_mem _ member), heirs_cons]
    simp only [Bind.bind, Except.bind, schedule_inside (inside c List.mem_cons_self), List.mem_append]
    by_cases named : parentAt links c = some x
    · have seen := known c named
      by_cases isRoot : c = root
      · have hit : c ∈ w.visited ∨ (c ∈ heirs links root x rest ∨ c ∈ w.stack) ∨ parentAt links c ≠ some x := by
          rcases seen.mpr isRoot with visited | waiting
          · exact .inl visited
          · exact .inr (.inl (.inr waiting))
        rw [if_pos hit, if_neg fun admits => admits.1 isRoot]
        simp [skipped]
      · have unseen : c ∉ w.visited ∧ c ∉ w.stack := not_or.mp fun held => isRoot (seen.mp held)
        by_cases again : c ∈ heirs links root x rest
        · rw [if_pos (.inr (.inl (.inl again))), if_neg fun admits => admits.2.2 again]
          simp [skipped]
        · have fresh : ¬ (c ∈ w.visited ∨ (c ∈ heirs links root x rest ∨ c ∈ w.stack) ∨
              parentAt links c ≠ some x) := by
            simp [unseen, again, named]
          rw [if_neg fresh, if_pos ⟨isRoot, named, again⟩]
          simp
    · rw [if_pos (.inr (.inr named)), if_neg fun admits => named admits.2.1]
      simp [skipped]

/-- Every position but the root comes behind its parent. The last one stands first. -/
def ParentsFirst (links : List Links) (root : Position) : List Position → Prop
  | [] => True
  | p :: earlier => (p = root ∨ ∃ x ∈ earlier, parentAt links p = some x) ∧ ParentsFirst links root earlier

/-- What holds at every point of a walk from the root. -/
structure Sound (links : List Links) (root : Position) (w : Walk) : Prop where
  fresh : (w.stack ++ w.visited).Nodup
  reached : ∀ p ∈ w.stack ++ w.visited, Reached links root p
  begun : root ∈ w.stack ++ w.visited
  waiting : ∀ p ∈ w.stack, p = root ∨ ∃ x ∈ w.visited, parentAt links p = some x
  parentsFirst : ParentsFirst links root w.visited
  covered : ∀ x ∈ w.visited, ∀ c ∈ below links root x, c ∈ w.stack ++ w.visited
  noticed : w.cyclic = true ↔
    (parentAt links root).isSome ∨ ∃ x ∈ w.visited, below links root x ≠ childrenAt links x

theorem parents_first_member {earlier : List Position} (ordered : ParentsFirst links root earlier)
    (member : p ∈ earlier) : p = root ∨ ∃ x ∈ earlier, parentAt links p = some x := by
  induction earlier with
  | nil => cases member
  | cons q rest ih =>
    rcases List.mem_cons.mp member with rfl | member
    · exact ordered.1.imp_right fun ⟨x, known, named⟩ => ⟨x, List.mem_cons_of_mem _ known, named⟩
    · exact (ih ordered.2 member).imp_right fun ⟨x, known, named⟩ => ⟨x, List.mem_cons_of_mem _ known, named⟩

theorem start_sound (inside : Inside links.length root) :
    ∃ w, start links (some root) = .ok w ∧ w.Sound links root ∧ w.stack = [root] ∧ w.visited = [] := by
  obtain ⟨l, _, found⟩ := nodeAt?_inside inside
  have parent : parentAt links root = l.parent := by simp [parentAt, found]
  refine ⟨{ stack := [root], cyclic := l.parent.isSome }, ?_, ?_, rfl, rfl⟩
  · simp [start, nodeAt_eq_ok_iff.mpr found, Bind.bind, Except.bind, Pure.pure, Except.pure]
  · refine ⟨by simp, ?_, by simp, by simp, trivial, by simp, by simp [parent]⟩
    intro p member
    obtain rfl : p = root := by simpa using member
    exact .root

/-- The walk after `x` is visited, when `waiting` is what waits behind it. -/
def expand (links : List Links) (root x : Position) (waiting : List Position) (w : Walk) : Walk where
  stack := below links root x ++ waiting
  visited := x :: w.visited
  cyclic := w.cyclic || decide (below links root x ≠ childrenAt links x)

/-- Whoever names the position that is visited now as its parent is not known yet, the root apart: it could only
have become known through that position. -/
theorem known_iff_root (sound : w.Sound links root) {waiting : List Position} (stack : w.stack = x :: waiting)
    (named : parentAt links c = some x) : (c ∈ x :: w.visited ∨ c ∈ waiting) ↔ c = root := by
  have fresh := sound.fresh
  rw [stack] at fresh
  simp only [List.cons_append, List.nodup_cons, List.mem_append, not_or] at fresh
  constructor
  · intro held
    have origin : c = root ∨ ∃ y ∈ w.visited, parentAt links c = some y := by
      rcases held with visited | pending
      · rcases List.mem_cons.mp visited with rfl | visited
        · exact sound.waiting c (stack ▸ List.mem_cons_self)
        · exact parents_first_member sound.parentsFirst visited
      · exact sound.waiting c (stack ▸ List.mem_cons_of_mem _ pending)
    rcases origin with isRoot | ⟨y, visited, otherwise⟩
    · exact isRoot
    · obtain rfl : y = x := Option.some.inj (otherwise.symm.trans named)
      exact absurd visited fresh.1.2
  · rintro rfl
    have begun := sound.begun
    rw [stack] at begun
    simp only [List.cons_append, List.mem_cons, List.mem_append] at begun ⊢
    tauto

theorem expand_sound (sound : w.Sound links root) {waiting : List Position} (stack : w.stack = x :: waiting) :
    (expand links root x waiting w).Sound links root := by
  have known := fun c => known_iff_root (c := c) sound stack
  obtain ⟨fresh, reached, begun, expected, ordered, covered, noticed⟩ := sound
  rw [stack] at fresh reached begun expected covered
  have xReached := reached x (by simp)
  have heir : ∀ c ∈ below links root x, c ∈ childrenAt links x ∧ c ≠ root ∧ parentAt links c = some x :=
    fun c member => mem_heirs.mp member
  have unknown : ∀ c ∈ below links root x, c ∉ x :: w.visited ∧ c ∉ waiting := fun c member =>
    not_or.mp fun held => (heir c member).2.1 ((known c (heir c member).2.2).mp held)
  constructor
  case fresh =>
    rw [expand, List.append_assoc]
    refine List.nodup_append.mpr ⟨heirs_nodup _, (List.nodup_middle).mpr fresh, ?_⟩
    rintro c member d held rfl
    rcases List.mem_append.mp held with pending | visited
    · exact (unknown c member).2 pending
    · exact (unknown c member).1 visited
  case reached =>
    intro p member
    simp only [expand, List.mem_append, List.mem_cons] at member
    rcases member with (member | pending) | rfl | visited
    · exact .child xReached (heir p member).1 (heir p member).2.2
    · exact reached p (by simp [pending])
    · exact xReached
    · exact reached p (by simp [visited])
  case begun =>
    simp only [expand, List.cons_append, List.mem_cons, List.mem_append] at begun ⊢
    tauto
  case waiting =>
    intro p member
    rcases List.mem_append.mp member with member | pending
    · exact .inr ⟨x, List.mem_cons_self, (heir p member).2.2⟩
    · exact (expected p (List.mem_cons_of_mem _ pending)).imp_right
        fun ⟨y, visited, named⟩ => ⟨y, List.mem_cons_of_mem _ visited, named⟩
  case parentsFirst => exact ⟨expected x List.mem_cons_self, ordered⟩
  case covered =>
    intro y visited c member
    rcases List.mem_cons.mp visited with rfl | visited
    · exact List.mem_append_left _ (List.mem_append_left _ member)
    · have held := covered y visited c member
      simp only [expand, List.cons_append, List.mem_cons, List.mem_append] at held ⊢
      tauto
  case noticed =>
    simp only [expand, Bool.or_eq_true, noticed, decide_eq_true_eq, List.mem_cons, exists_eq_or_imp]
    exact or_assoc.trans (or_congr_right or_comm)

/-- One step visits the next position and keeps the walk sound. -/
theorem next_sound (closed : Closed links) (inside : Inside links.length root) (sound : w.Sound links root)
    {waiting : List Position} (stack : w.stack = x :: waiting) :
    next links w = .ok (some (x, expand links root x waiting w)) := by
  have xInside := reached_inside closed inside (sound.reached x (by simp [stack]))
  obtain ⟨l, _, found⟩ := nodeAt?_inside xInside
  have children : l.children = childrenAt links x := by simp [childrenAt, found]
  have scheduled := schedule_children (w := { w with stack := waiting, visited := x :: w.visited })
    (fun c => known_iff_root sound stack) (childrenAt links x)
    fun c listed => closed_children closed xInside listed
  unfold next
  rw [stack]
  simp only [nodeAt_eq_ok_iff.mpr found, Bind.bind, Except.bind, Pure.pure, Except.pure, children, scheduled]
  rfl

/-- The order in which a descent visits all that waits and everything below it. -/
inductive Descent (below : Position → List Position) : List Position → List Position → Prop where
  | done : Descent below [] []
  | visit {x : Position} {waiting order : List Position} (rest : Descent below (below x ++ waiting) order) :
      Descent below (x :: waiting) (x :: order)

theorem descent_unique {below : Position → List Position} {waiting first second : List Position}
    (one : Descent below waiting first) (other : Descent below waiting second) : first = second := by
  induction one generalizing second with
  | done => cases other; rfl
  | visit _ ih =>
    cases other with
    | visit rest => rw [ih rest]

@[simp] theorem last_nil (w : Walk) : w.last [] = w := rfl

@[simp] theorem last_cons (w after : Walk) (taken : List (Position × Walk)) :
    w.last ((x, after) :: taken) = after.last taken := by
  cases taken with
  | nil => rfl
  | cons step rest => simp [last, List.getLast?_cons]

/-- So many steps of a sound walk go through, end in a sound walk, and only stop short when nothing waits. -/
theorem steps_sound (closed : Closed links) (inside : Inside links.length root) (count : Nat)
    (sound : w.Sound links root) :
    ∃ taken, steps links count w = .ok taken ∧ (w.last taken).Sound links root ∧
      (w.last taken).visited = (taken.map Prod.fst).reverse ++ w.visited ∧
      (taken.length = count ∨ taken.length < count ∧ (w.last taken).stack = []) ∧
      ∀ order, Descent (below links root) (w.last taken).stack order →
        Descent (below links root) w.stack (taken.map Prod.fst ++ order) := by
  induction count generalizing w with
  | zero => exact ⟨[], rfl, sound, rfl, .inl rfl, fun _ rest => rest⟩
  | succ count ih =>
    cases stack : w.stack with
    | nil =>
      refine ⟨[], ?_, sound, rfl, .inr ⟨Nat.succ_pos count, stack⟩, fun order rest => ?_⟩
      · simp [steps, next, stack, Bind.bind, Except.bind, Pure.pure, Except.pure]
      · simpa [stack] using rest
    | cons x waiting =>
      obtain ⟨taken, ran, ended, visited, stopped, descent⟩ := ih (expand_sound sound stack)
      refine ⟨(x, expand links root x waiting w) :: taken, ?_, ?_, ?_, ?_, fun order rest => ?_⟩
      · simp only [steps, next_sound closed inside sound stack, ran, Bind.bind, Except.bind, Pure.pure, Except.pure]
      · simpa only [last_cons] using ended
      · simp [visited, show (expand links root x waiting w).visited = x :: w.visited from rfl]
      · simpa using stopped
      · exact .visit (descent order (by simpa using rest))

/-- A sound walk comes to an end: it visits what a descent from the waiting positions visits, and then nothing
waits any more. -/
theorem remaining_sound (closed : Closed links) (inside : Inside links.length root) (sound : w.Sound links root) :
    ∃ order final, w.remaining links = .ok (order, final) ∧ final.Sound links root ∧ final.stack = [] ∧
      final.visited = order.reverse ++ w.visited ∧ Descent (below links root) w.stack order := by
  obtain ⟨taken, ran, ended, visited, stopped, descent⟩ :=
    steps_sound closed inside (2 * links.length) sound
  have finished : (w.last taken).stack = [] := by
    rcases stopped with full | ⟨_, finished⟩
    · have room := inside_length_le ended.fresh
        fun p member => reached_inside closed inside (ended.reached p member)
      simp only [List.length_append, visited, List.length_reverse, List.length_map, full] at room
      exact List.eq_nil_of_length_eq_zero (by omega)
    · exact finished
  refine ⟨taken.map Prod.fst, w.last taken, ?_, ended, finished, visited, ?_⟩
  · simp only [remaining, toEnd, ran, Bind.bind, Except.bind, Pure.pure, Except.pure]
  · simpa using descent [] (by rw [finished]; exact .done)

/-- So many steps of a sound walk are the first so many of its descent, and the rest is still to come. -/
theorem steps_along (closed : Closed links) (inside : Inside links.length root) (sound : w.Sound links root)
    {order : List Position} (descent : Descent (below links root) w.stack order) (count : Nat) :
    ∃ taken, w.steps links count = .ok taken ∧ taken.map Prod.fst = order.take count ∧
      (w.last taken).Sound links root ∧ Descent (below links root) (w.last taken).stack (order.drop count) := by
  obtain ⟨taken, ran, ended, _, stopped, before⟩ := steps_sound closed inside count sound
  obtain ⟨rest, _, _, _, _, _, finishing⟩ := remaining_sound closed inside ended
  obtain rfl : order = taken.map Prod.fst ++ rest := descent_unique descent (before rest finishing)
  refine ⟨taken, ran, ?_⟩
  rcases stopped with full | ⟨short, finished⟩
  · have size : (taken.map Prod.fst).length = count := by rw [List.length_map, full]
    rw [List.take_left' size, List.drop_left' size]
    exact ⟨rfl, ended, finishing⟩
  · rw [finished] at finishing ⊢
    cases finishing
    have size : (taken.map Prod.fst).length ≤ count := by rw [List.length_map]; omega
    rw [List.append_nil, List.take_of_length_le size, List.drop_of_length_le size]
    exact ⟨rfl, ended, .done⟩

/-- A whole walk visits the recursive descent from the root. -/
theorem whole_sound (closed : Closed links) (inside : Inside links.length root) :
    ∃ order final, whole links root = .ok (order, final) ∧ final.Sound links root ∧ final.stack = [] ∧
      final.visited = order.reverse ∧ Descent (below links root) [root] order := by
  obtain ⟨w, begun, sound, stack, visited⟩ := start_sound inside
  obtain ⟨order, final, ran, ended, finished, seen, descent⟩ := remaining_sound closed inside sound
  refine ⟨order, final, ?_, ended, finished, ?_, stack ▸ descent⟩
  · simp only [whole, begun, ran, Bind.bind, Except.bind]
  · simpa [visited] using seen

/-- What a finished walk has visited is what a descent reaches. -/
theorem mem_visited_iff (sound : w.Sound links root) (finished : w.stack = []) :
    p ∈ w.visited ↔ Reached links root p := by
  have begun := sound.begun
  rw [finished] at begun
  constructor
  · intro visited
    exact sound.reached p (List.mem_append_right _ visited)
  · intro reached
    induction reached with
    | root => exact begun
    | @child x c _ listed named ih =>
      by_cases isRoot : c = root
      · exact isRoot ▸ begun
      · have held := sound.covered x ih c (mem_heirs.mpr ⟨listed, isRoot, named⟩)
        rwa [finished] at held

/-- A finished walk has visited everything exactly when every position is reached. -/
theorem visited_count_iff (closed : Closed links) (inside : Inside links.length root) (sound : w.Sound links root)
    (finished : w.stack = []) :
    w.visitedCount = links.length ↔ ∀ p, Inside links.length p → Reached links root p := by
  have fresh := sound.fresh
  rw [finished, List.nil_append] at fresh
  have bound := fun p visited => reached_inside closed inside ((mem_visited_iff (p := p) sound finished).mp visited)
  let all : List Position := (List.range links.length).map fun i : Nat => (i : Position)
  have listed : ∀ p, p ∈ all ↔ Inside links.length p := by
    intro p
    simp only [all, List.mem_map, List.mem_range, inside_iff]
  constructor
  · intro full p pInside
    have enough : all.length ≤ w.visited.length := by
      simpa [all] using (show links.length ≤ w.visited.length from Nat.le_of_eq full.symm)
    have same := (List.subperm_of_subset fresh fun p visited => (listed p).mpr (bound p visited)).perm_of_length_le
      enough
    exact (mem_visited_iff sound finished).mp (same.mem_iff.mpr ((listed p).mpr pInside))
  · intro every
    have distinct : all.Nodup := List.nodup_range.map fun _ _ same => Int.ofNat.inj same
    have full := (List.subperm_of_subset distinct fun p member =>
      (mem_visited_iff sound finished).mpr (every p ((listed p).mp member))).length_le
    have room := inside_length_le fresh bound
    simp only [all, List.length_map, List.length_range] at full
    exact Nat.le_antisymm room full

/-- A finished walk that skipped nothing and visited everything has found a tree, and in a tree every walk from
the root does so. -/
theorem accepts_iff (closed : Closed links) (inside : Inside links.length root) (sound : w.Sound links root)
    (finished : w.stack = []) :
    (w.cyclic = false ∧ w.visitedCount = links.length) ↔ IsTree links root := by
  have visited := fun p => mem_visited_iff (p := p) sound finished
  rw [visited_count_iff closed inside sound finished]
  constructor
  · rintro ⟨unskipped, every⟩
    have clean := mt sound.noticed.mpr (by simp [unskipped])
    simp only [not_or, not_exists, not_and, not_not, Bool.not_eq_true, Option.isSome_eq_false_iff,
      Option.isNone_iff_eq_none] at clean
    have whole := fun x xInside => heirs_eq_self_iff.mp (clean.2 x ((visited x).mpr (every x xInside)))
    refine ⟨clean.1, fun x c cInside => ⟨fun named => ?_, ?_⟩, fun x xInside => (whole x xInside).1,
      fun p pInside => reached_ascends (every p pInside)⟩
    · cases every c cInside with
      | root => simp [clean.1] at named
      | child above listed otherwise =>
        obtain rfl := Option.some.inj (named.symm.trans otherwise)
        exact ⟨reached_inside closed inside above, listed⟩
    · rintro ⟨xInside, listed⟩
      exact ((whole x xInside).2 c listed).2
  · intro tree
    have reaches : ∀ k p, Inside links.length p → Ascends links root k p → Reached links root p := by
      intro k p pInside above
      induction above with
      | root => exact .root
      | @parent k p x named _ ih =>
        have edge := (tree.agree x p pInside).mp named
        exact .child (ih edge.1) edge.2 named
    refine ⟨?_, fun p pInside => (tree.ascends p pInside).elim fun k => reaches k p pInside⟩
    rw [← Bool.not_eq_true, sound.noticed, not_or]
    refine ⟨by simp [tree.parentless], ?_⟩
    rintro ⟨x, seen, skipped⟩
    have xInside := reached_inside closed inside ((visited x).mp seen)
    refine skipped (heirs_eq_self_iff.mpr ⟨tree.nodup x xInside, fun c listed => ?_⟩)
    have named := (tree.agree x c (closed_children closed xInside listed)).mpr ⟨xInside, listed⟩
    exact ⟨fun isRoot => by simp [isRoot, tree.parentless] at named, named⟩

end PayloadSchema.Walk
