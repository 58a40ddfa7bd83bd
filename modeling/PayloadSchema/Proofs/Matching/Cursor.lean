import PayloadSchema.Proofs.Matching.Orderings

/-! Arrangements one by one. An enumeration under way is a stack of suspended calls that share two lists and change
them in place. Every branch gives the lists back as it found them, so that the items of an enumeration are exactly
those of the series. -/
namespace PayloadSchema.Arrangements

/-- A call that waits for the one inside it: the place it fills and the element its loop stands at. -/
structure Frame where
  place : Nat
  element : Nat
deriving DecidableEq, Repr

/-- What the innermost call does next. -/
inductive Mode where
  /-- It begins. -/
  | enter
  /-- Its loop comes to an element. -/
  | scan (place element : Nat)
  /-- It has ended. -/
  | leave
deriving DecidableEq, Repr

/-- An enumeration under way. The calls share the elements placed so far, the last of them first, and for each
element whether it is placed. -/
structure Cursor where
  mode : Mode
  waiting : List Frame
  placed : List Nat
  used : List Bool
deriving DecidableEq, Repr

/-- What one step comes to. -/
inductive Outcome where
  | working (next : Cursor)
  | item (order : List Nat) (next : Cursor)
  | ended
  /-- An element is asked for that there is no account of, or there is nothing to take back. -/
  | stuck
deriving DecidableEq, Repr

/-- An enumeration not yet begun. -/
def fresh (a : Arrangements) : Cursor := ⟨.enter, [], [], List.replicate a.size false⟩

/-- One step of an enumeration. -/
def step (a : Arrangements) (c : Cursor) : Outcome :=
  match c.mode with
  | .enter =>
    if c.placed.length = a.size then .item c.placed.reverse { c with mode := .leave }
    else .working { c with mode := .scan c.placed.length 0 }
  | .scan place element =>
    if a.size ≤ element then .working { c with mode := .leave }
    else match c.used[element]? with
      | none => .stuck
      | some true => .working { c with mode := .scan place (element + 1) }
      | some false =>
        if a.allows place element then
          .working ⟨.enter, ⟨place, element⟩ :: c.waiting, element :: c.placed, c.used.set element true⟩
        else .working { c with mode := .scan place (element + 1) }
  | .leave =>
    match c.waiting, c.placed with
    | [], _ => .ended
    | _ :: _, [] => .stuck
    | frame :: waiting, _ :: placed =>
      .working ⟨.scan frame.place (frame.element + 1), waiting, placed, c.used.set frame.element false⟩

/-- Steps from one cursor to another, with the items on the way. -/
inductive Emits (a : Arrangements) : Cursor → List (List Nat) → Cursor → Prop where
  | here (c : Cursor) : Emits a c [] c
  | working {c next final : Cursor} {items : List (List Nat)} (stepped : a.step c = .working next)
      (further : Emits a next items final) : Emits a c items final
  | item {c next final : Cursor} {order : List Nat} {items : List (List Nat)} (stepped : a.step c = .item order next)
      (further : Emits a next items final) : Emits a c (order :: items) final

variable {a : Arrangements}

theorem Emits.append {c middle final : Cursor} {front rest : List (List Nat)} (before : Emits a c front middle)
    (behind : Emits a middle rest final) : Emits a c (front ++ rest) final := by
  induction before with
  | here => exact behind
  | working stepped _ ih => exact .working stepped (ih behind)
  | item stepped _ ih => exact .item stepped (ih behind)

/-- The elements that are not placed. -/
def free (used : List Bool) : List Nat := (List.range used.length).filter fun e => used[e]? = some false

theorem free_set {used : List Bool} {element : Nat} (unplaced : used[element]? = some false) :
    free (used.set element true) = (free used).erase element := by
  have once : (free used).Nodup := List.nodup_range.filter _
  rw [once.erase_eq_filter, free, free, List.filter_filter, List.length_set]
  apply List.filter_congr
  intro other _
  by_cases same : other = element
  · subst same
    have inside : other < used.length := (List.getElem?_eq_some_iff.mp unplaced).1
    simp [inside]
  · simp [same, List.getElem?_set_ne (Ne.symm same)]

theorem free_replicate (n : Nat) : free (List.replicate n false) = List.range n := by
  rw [free, List.length_replicate, List.filter_eq_self]
  intro element listed
  simpa [List.getElem?_replicate] using listed

theorem set_back {used : List Bool} {element : Nat} (unplaced : used[element]? = some false) :
    (used.set element true).set element false = used := by
  obtain ⟨inside, found⟩ := List.getElem?_eq_some_iff.mp unplaced
  rw [List.set_set, ← found, List.set_getElem_self]

/-- What the loop of a call emits from an element on, when every branch of it gives the lists back as it found
them. -/
theorem scan_emits (waiting : List Frame) (placed : List Nat) {used : List Bool} (place : Nat)
    {items : Nat → List (List Nat)} (full : used.length = a.size)
    (branch : ∀ element, used[element]? = some false → a.allows place element = true →
      Emits a ⟨.enter, ⟨place, element⟩ :: waiting, element :: placed, used.set element true⟩ (items element)
        ⟨.leave, ⟨place, element⟩ :: waiting, element :: placed, used.set element true⟩)
    (behind element : Nat) (position : element + behind = a.size) :
    Emits a ⟨.scan place element, waiting, placed, used⟩
      (((List.range' element behind).filter fun e => used[e]? = some false && a.allows place e).flatMap items)
      ⟨.leave, waiting, placed, used⟩ := by
  induction behind generalizing element with
  | zero => exact .working (by simp [step, ← position]) (.here _)
  | succ behind ih =>
    have inside : ¬ a.size ≤ element := by omega
    have rest := ih (element + 1) (by omega)
    obtain ⟨mark, found⟩ : ∃ mark, used[element]? = some mark :=
      ⟨_, List.getElem?_eq_getElem (by omega : element < used.length)⟩
    rw [List.range'_succ]
    by_cases taken : used[element]? = some false ∧ a.allows place element = true
    · obtain ⟨unplaced, allowed⟩ := taken
      have into : a.step ⟨.scan place element, waiting, placed, used⟩ =
          .working ⟨.enter, ⟨place, element⟩ :: waiting, element :: placed, used.set element true⟩ := by
        simp [step, inside, unplaced, allowed]
      have back : a.step ⟨.leave, ⟨place, element⟩ :: waiting, element :: placed, used.set element true⟩ =
          .working ⟨.scan place (element + 1), waiting, placed, used⟩ := by
        simp [step, set_back unplaced]
      rw [List.filter_cons_of_pos (by simp [unplaced, allowed]), List.flatMap_cons]
      exact .working into ((branch element unplaced allowed).append (.working back rest))
    · have past : a.step ⟨.scan place element, waiting, placed, used⟩ =
          .working ⟨.scan place (element + 1), waiting, placed, used⟩ := by
        cases mark with
        | true => simp [step, inside, found]
        | false =>
          have refused : a.allows place element = false := by simpa [found] using taken
          simp [step, inside, found, refused]
      rw [List.filter_cons_of_neg (by simpa using taken)]
      exact .working past rest

/-- A call emits every way to fill the places from its own on, and gives the lists back as it found them. -/
theorem call_emits (left : Nat) (waiting : List Frame) (placed : List Nat) (used : List Bool)
    (unfilled : placed.length + left = a.size) (full : used.length = a.size) :
    Emits a ⟨.enter, waiting, placed, used⟩
      ((fills a.allows placed.length (free used) left).map (placed.reverse ++ ·)) ⟨.leave, waiting, placed, used⟩ := by
  induction left generalizing waiting placed used with
  | zero =>
    have filled : a.step ⟨.enter, waiting, placed, used⟩ =
        .item placed.reverse ⟨.leave, waiting, placed, used⟩ := by
      have : placed.length = a.size := by omega
      simp [step, this]
    simpa [fills] using Emits.item filled (.here _)
  | succ left ih =>
    have begun : a.step ⟨.enter, waiting, placed, used⟩ =
        .working ⟨.scan placed.length 0, waiting, placed, used⟩ := by
      have : placed.length ≠ a.size := by omega
      simp [step, this]
    have looped := scan_emits waiting placed placed.length full
      (fun element unplaced _ => ih (⟨placed.length, element⟩ :: waiting) (element :: placed) (used.set element true)
        (by rw [List.length_cons]; omega) (by rw [List.length_set, full])) a.size 0 (Nat.zero_add _)
    have candidates : (free used).filter (a.allows placed.length) =
        (List.range' 0 a.size).filter fun e => used[e]? = some false && a.allows placed.length e := by
      rw [free, List.filter_filter, full, List.range_eq_range']
      exact List.filter_congr fun e _ => Bool.and_comm _ _
    have same : (fills a.allows placed.length (free used) (left + 1)).map (placed.reverse ++ ·) =
        ((free used).filter (a.allows placed.length)).flatMap fun element =>
          (fills a.allows (element :: placed).length (free (used.set element true)) left).map
            ((element :: placed).reverse ++ ·) := by
      simp only [fills, List.map_flatMap, List.map_map]
      apply List.flatMap_congr
      intro element candidate
      have unplaced : used[element]? = some false := by
        simpa using (List.mem_filter.mp (List.mem_filter.mp candidate).1).2
      simp [free_set unplaced, Function.comp_def]
    rw [same, candidates]
    exact .working begun looped

/-- An enumeration emits the arrangements and is then over. -/
theorem fresh_emits (a : Arrangements) :
    Emits a a.fresh a.toList ⟨.leave, [], [], List.replicate a.size false⟩ := by
  have emitted : Emits a ⟨.enter, [], [], List.replicate a.size false⟩ _ _ :=
    call_emits a.size [] [] (List.replicate a.size false) (by simp) (by simp)
  simpa [fresh, free_replicate, toList_eq_fills] using emitted

end PayloadSchema.Arrangements
