import PayloadSchema.Proofs.Matching.Cursor

/-! Many enumerations of the same arrangements at once. What one of them has given says nothing about another: each
goes through all arrangements in order, however the requests to them are mixed. -/
namespace PayloadSchema.Arrangements

/-- What an enumeration answers when it is asked for its next item, and how it stands then. At its end it answers
without an item. -/
inductive Answers (a : Arrangements) : Cursor → Option (List Nat) → Cursor → Prop where
  | item {c next : Cursor} {order : List Nat} (stepped : a.step c = .item order next) : Answers a c (some order) next
  | ended {c : Cursor} (stepped : a.step c = .ended) : Answers a c none c
  | working {c next final : Cursor} {answer : Option (List Nat)} (stepped : a.step c = .working next)
      (further : Answers a next answer final) : Answers a c answer final

/-- What happens with one object: a further enumeration of it begins, or one of them answers. -/
inductive Event where
  | begun
  | answered (which : Nat) (answer : Option (List Nat))
deriving DecidableEq, Repr

/-- What can have happened with one object, and how its enumerations stand then. -/
inductive Session (a : Arrangements) : List Event → List Cursor → Prop where
  | start : Session a [] []
  | begin {events : List Event} {cursors : List Cursor} (before : Session a events cursors) :
      Session a (events ++ [.begun]) (cursors ++ [a.fresh])
  | next {events : List Event} {cursors : List Cursor} {which : Nat} {c final : Cursor} {answer : Option (List Nat)}
      (before : Session a events cursors) (asked : cursors[which]? = some c) (answered : Answers a c answer final) :
      Session a (events ++ [.answered which answer]) (cursors.set which final)

/-- What one enumeration has answered. -/
def said (which : Nat) (events : List Event) : List (Option (List Nat)) :=
  events.filterMap fun
    | .begun => none
    | .answered other answer => if other = which then some answer else none

@[simp] theorem said_begun (which : Nat) (events : List Event) : said which (events ++ [.begun]) = said which events := by
  simp [said]

theorem said_answered (which other : Nat) (events : List Event) (answer : Option (List Nat)) :
    said which (events ++ [.answered other answer]) =
      said which events ++ if other = which then [answer] else [] := by
  by_cases same : other = which <;> simp [said, same]

variable {a : Arrangements}

/-- The items that an enumeration still has before it. -/
def Ahead (a : Arrangements) (c : Cursor) (items : List (List Nat)) : Prop :=
  ∃ final, Emits a c items final ∧ a.step final = .ended

theorem Ahead.answer {c final : Cursor} {items : List (List Nat)} {answer : Option (List Nat)}
    (ahead : Ahead a c items) (answered : Answers a c answer final) :
    answer = items.head? ∧ Ahead a final items.tail := by
  obtain ⟨last, emitted, ended⟩ := ahead
  induction emitted with
  | here c =>
    cases answered with
    | item stepped => cases ended.symm.trans stepped
    | ended _ => exact ⟨rfl, _, .here _, ended⟩
    | working stepped _ => cases ended.symm.trans stepped
  | working stepped further ih =>
    cases answered with
    | item other => cases stepped.symm.trans other
    | ended other => cases stepped.symm.trans other
    | working other answered =>
      cases stepped.symm.trans other
      exact ih answered ended
  | item stepped further _ =>
    cases answered with
    | item other =>
      cases stepped.symm.trans other
      exact ⟨rfl, _, further, ended⟩
    | ended other => cases stepped.symm.trans other
    | working other _ => cases stepped.symm.trans other

theorem Ahead.answered {c : Cursor} {items : List (List Nat)} (ahead : Ahead a c items) :
    ∃ final, Answers a c items.head? final := by
  obtain ⟨last, emitted, ended⟩ := ahead
  induction emitted with
  | here c => exact ⟨c, .ended ended⟩
  | working stepped _ ih =>
    obtain ⟨final, answered⟩ := ih ended
    exact ⟨final, .working stepped answered⟩
  | item stepped _ _ => exact ⟨_, .item stepped⟩

theorem fresh_ahead (a : Arrangements) : Ahead a a.fresh a.toList := ⟨_, fresh_emits a, rfl⟩

/-- Every enumeration has before it what it has not answered yet, and those that have not begun have answered
nothing. -/
structure Kept (a : Arrangements) (events : List Event) (cursors : List Cursor) : Prop where
  ahead : ∀ which c, cursors[which]? = some c → Ahead a c (a.toList.drop (said which events).length)
  exact : ∀ which, said which events = (List.range (said which events).length).map (a.toList[·]?)
  silent : ∀ which, cursors.length ≤ which → said which events = []

theorem Kept.begin {events : List Event} {cursors : List Cursor} (kept : Kept a events cursors) :
    Kept a (events ++ [.begun]) (cursors ++ [a.fresh]) := by
  refine ⟨fun which c found => ?_, fun which => ?_, fun which beyond => ?_⟩
  · rw [said_begun]
    rcases lt_or_ge which cursors.length with old | new
    · exact kept.ahead which c (by rwa [List.getElem?_append_left old] at found)
    · obtain rfl : a.fresh = c := by
        rw [List.getElem?_append_right new] at found
        exact List.mem_singleton.mp (List.mem_of_getElem? found) |>.symm
      rw [kept.silent which new]
      exact fresh_ahead a
  · rw [said_begun]
    exact kept.exact which
  · rw [said_begun]
    rw [List.length_append, List.length_singleton] at beyond
    exact kept.silent which (by omega)

theorem Kept.next {events : List Event} {cursors : List Cursor} {asked : Nat} {c final : Cursor}
    {answer : Option (List Nat)} (kept : Kept a events cursors) (found : cursors[asked]? = some c)
    (answered : Answers a c answer final) : Kept a (events ++ [.answered asked answer]) (cursors.set asked final) := by
  obtain ⟨exactly, after⟩ := (kept.ahead asked c found).answer answered
  rw [List.head?_drop] at exactly
  rw [List.tail_drop] at after
  have inside : asked < cursors.length := (List.getElem?_eq_some_iff.mp found).1
  refine ⟨fun which other there => ?_, fun which => ?_, fun which beyond => ?_⟩ <;> rw [said_answered]
  · by_cases same : asked = which
    · subst same
      obtain rfl : final = other := by simpa [inside] using there
      simpa using after
    · rw [List.getElem?_set_ne same] at there
      simpa [same] using kept.ahead which other there
  · by_cases same : asked = which
    · subst same
      rw [if_pos rfl, List.length_append, List.length_singleton, List.range_succ, List.map_append, ← kept.exact]
      simp [exactly]
    · simpa [same] using kept.exact which
  · rw [List.length_set] at beyond
    have : asked ≠ which := by omega
    simp [this, kept.silent which beyond]

theorem session_kept {events : List Event} {cursors : List Cursor} (session : Session a events cursors) :
    Kept a events cursors := by
  induction session with
  | start => exact ⟨by simp, fun _ => rfl, fun _ _ => rfl⟩
  | begin _ ih => exact ih.begin
  | next _ asked answered ih => exact ih.next asked answered

/-- Whether a grid of so many rows and columns, if there is one, has a true cell in the row of a place and the column
of an element. -/
def admits (n : Nat) (grid : Option Grid) (place element : Nat) : Bool :=
  grid.all fun g => g.cells[place * n + element]? = some true

/-- A grid with a row and a column for each element is accepted, and says which elements a place may hold. -/
theorem of_square (n : Nat) (grid : Option Grid) (square : ∀ g, grid = some g → g.shape = [n, n]) :
    ∃ a, of (.whole n) grid = .ok a ∧ a.size = n ∧
      ∀ place element, element < n → a.allows place element = admits n grid place element := by
  cases grid with
  | none => exact ⟨⟨n, none, .whole n⟩, by simp [of, Amount.isBelow, Amount.most], rfl, fun _ _ _ => rfl⟩
  | some g =>
    have shape := square g rfl
    have fitting : fits (.whole n) g = true := by simp [fits, shape, Amount.equals]
    refine ⟨⟨n, g.mask?, .whole n⟩, ?_, rfl, fun place element inside => ?_⟩
    · simp [of, Amount.isBelow, Amount.most, Option.filter, fitting]
    · cases cell : g.cells[place * n + element]? with
      | none => simp [allows, admits, Grid.mask?, shape, cell]
      | some truth => simp [allows, admits, Grid.mask?, shape, cell, inside]

/-- What it is to enumerate the permutations of so many elements that put each element where it is admitted. -/
structure Enumerates (a : Arrangements) (n : Nat) (admitted : Nat → Nat → Bool) : Prop where
  members : ∀ order, order ∈ a.toList ↔
    order.Perm (List.range n) ∧ ∀ place element, order[place]? = some element → admitted place element = true
  once : a.toList.Nodup
  /-- In lexicographic order. -/
  ascending : a.toList.Pairwise (· < ·)
  filtered : ∃ plain, of (.whole n) none = .ok plain ∧ a.toList = plain.toList.filter (suits admitted 0)
  /-- As long as there is room for the account of the elements and for the places inside one another, the first
  arrangements are those of the list. -/
  taken : ∀ depthLimit count, n ≤ accountLimit → (∀ limit, depthLimit = some limit → n ≤ limit) →
    a.take depthLimit count = .ok (a.toList.take count)
  /-- Each enumeration of the object answers with the arrangements in order and with nothing more after the last,
  whatever the others are asked in between. -/
  exact : ∀ events cursors which, Session a events cursors →
    said which events = (List.range (said which events).length).map (a.toList[·]?)
  /-- Every enumeration that has begun can be asked once more. -/
  goes_on : ∀ events cursors which, Session a events cursors → which < cursors.length →
    ∃ answer further, Session a (events ++ [.answered which answer]) further

theorem session_goes_on {events : List Event} {cursors : List Cursor} {which : Nat}
    (session : Session a events cursors) (begun : which < cursors.length) :
    ∃ answer further, Session a (events ++ [.answered which answer]) further := by
  have found := List.getElem?_eq_getElem begun
  obtain ⟨final, answered⟩ := ((session_kept session).ahead which _ found).answered
  exact ⟨_, _, .next session found answered⟩

/-- What a mask admits matters only for the elements that there are. -/
theorem suits_of_agreeing {n : Nat} {allowed admitted : Nat → Nat → Bool}
    (agree : ∀ place element, element < n → allowed place element = admitted place element) {order : List Nat}
    (listed : order ∈ orderings n) : suits allowed 0 order = suits admitted 0 order := by
  have below : ∀ {place element : Nat}, order[place]? = some element → element < n := fun found =>
    List.mem_range.mp ((mem_orderings.mp listed).subset (List.mem_of_getElem? found))
  rw [Bool.eq_iff_iff, suits_iff, suits_iff]
  refine forall₃_congr fun place element found => ?_
  rw [agree _ _ (below found)]

/-- Under every mask, or none, the object of so many elements enumerates the permutations that the mask admits. -/
theorem of_enumerates (n : Nat) (grid : Option Grid) (square : ∀ g, grid = some g → g.shape = [n, n]) :
    ∃ a, of (.whole n) grid = .ok a ∧ a.size = n ∧ Enumerates a n (admits n grid) := by
  obtain ⟨a, accepted, rfl, agree⟩ := of_square n grid square
  obtain ⟨plain, unmasked, size, everything⟩ := of_square a.size none (fun _ none => nomatch none)
  have all : plain.toList = orderings a.size := by
    rw [toList_eq_filter, size, List.filter_eq_self]
    intro order listed
    rw [suits_of_agreeing everything listed, suits_iff]
    exact fun _ _ _ => rfl
  have filtered : a.toList = (orderings a.size).filter (suits (admits a.size grid) 0) := by
    rw [toList_eq_filter]
    exact List.filter_congr fun order listed => suits_of_agreeing agree listed
  have ascending : a.toList.Pairwise (· < ·) := filtered ▸ (orderings_sorted a.size).filter _
  refine ⟨a, accepted, rfl, ?_, ascending.imp ne_of_lt, ascending, ⟨plain, unmasked, all ▸ filtered⟩,
    fun depthLimit count small shallow => take_of_small small shallow,
    fun events cursors which session => (session_kept session).exact which,
    fun events cursors which session begun => session_goes_on session begun⟩
  intro order
  rw [filtered, List.mem_filter, mem_orderings, suits_iff]
  simp only [Nat.zero_add]

/-- The last of three elements has to stand in the last place; the others may not. -/
def blocks : Grid := ⟨[3, 3], [true, true, false, true, true, false, false, false, true]⟩

theorem blocks_enumerated : blocks.shape = [3, 3] ∧
    (of (.whole 3) (some blocks)).map toList = .ok [[0, 1, 2], [1, 0, 2]] ∧
    ∃ a, of (.whole 3) (some blocks) = .ok a ∧ a.size = 3 ∧ Enumerates a 3 (admits 3 (some blocks)) :=
  ⟨rfl, rfl, of_enumerates 3 (some blocks) fun _ given => by cases given; rfl⟩

end PayloadSchema.Arrangements
