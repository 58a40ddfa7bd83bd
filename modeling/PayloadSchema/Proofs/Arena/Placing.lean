import PayloadSchema.Arena.Placement
import PayloadSchema.Proofs.Arena.WalkExactness
import PayloadSchema.Proofs.Lists

/-! Placing along a walk never lacks a parent's place: a position is placed behind its parent, and its place is the
one that the chain of its parents determines. -/
namespace PayloadSchema.Place
open Arena Walk

variable {nodes : List Node} {root p x : Position} {place : Place}

/-- The place that the chain of parents above a position gives it. -/
inductive Stands (nodes : List Node) : Position → Place → Prop where
  | top {p : Position} {n : Node} (found : nodeAt? nodes p = some n) (parentless : n.parent = none) :
      Stands nodes p Place.root
  | child {p x : Position} {n m : Node} {place : Place} (found : nodeAt? nodes p = some n)
      (named : n.parent = some x) (above : nodeAt? nodes x = some m) (stands : Stands nodes x place) :
      Stands nodes p (place.below m.kind n.name)

theorem stands_unique {first second : Place} (one : Stands nodes p first) (other : Stands nodes p second) :
    first = second := by
  induction one generalizing second with
  | top found parentless =>
    cases other with
    | top => rfl
    | child again named _ _ =>
      obtain rfl := Option.some.inj (found.symm.trans again)
      simp [parentless] at named
  | child found named above _ ih =>
    cases other with
    | top again parentless =>
      obtain rfl := Option.some.inj (found.symm.trans again)
      simp [parentless] at named
    | child again otherwise higher stands =>
      obtain rfl := Option.some.inj (found.symm.trans again)
      obtain rfl := Option.some.inj (named.symm.trans otherwise)
      obtain rfl := Option.some.inj (above.symm.trans higher)
      rw [ih stands]

/-- The level counts the steps up to the root, the root's own being the first. -/
theorem stands_depth {k : Nat} (parentless : parentAt (nodes.map (·.toLinks)) root = none)
    (above : Ascends (nodes.map (·.toLinks)) root k p) (stands : Stands nodes p place) : place.depth = k + 1 := by
  induction above generalizing place with
  | root =>
    cases stands with
    | top => rfl
    | child found named _ _ =>
      rw [parentAt_links found, named] at parentless
      cases parentless
  | parent named _ ih =>
    cases stands with
    | top found alone =>
      rw [parentAt_links found, alone] at named
      cases named
    | child found otherwise _ stands =>
      rw [parentAt_links found, otherwise] at named
      obtain rfl := Option.some.inj named
      exact congrArg (· + 1) (ih stands)

/-- Every place is the one that the parents determine. -/
def Faithful (nodes : List Node) (places : List (Position × Place)) : Prop :=
  ∀ q place, Assoc.get? places q = some place → Stands nodes q place

theorem extend_places {places : List (Position × Place)} (inside : Inside nodes.length p)
    (faithful : Faithful nodes places)
    (parent : parentAt (nodes.map (·.toLinks)) p = none ∨
      ∃ x ∈ places.map Prod.fst, parentAt (nodes.map (·.toLinks)) p = some x) :
    ∃ place, extend nodes places p = .ok (Assoc.put places p place) ∧ Stands nodes p place := by
  obtain ⟨n, _, found⟩ := nodeAt?_inside inside
  rw [parentAt_links found] at parent
  rcases parent with parentless | ⟨x, known, named⟩
  · refine ⟨Place.root, ?_, .top found parentless⟩
    simp [extend, nodeAt_eq_ok_iff.mpr found, parentless, Except.mapError, Bind.bind, Except.bind, Pure.pure,
      Except.pure]
  · obtain ⟨place, stored⟩ := Option.isSome_iff_exists.mp (Assoc.isSome_get?_iff.mpr known)
    have stands := faithful x place stored
    obtain ⟨m, above⟩ : ∃ m, nodeAt? nodes x = some m := by
      cases stands with
      | top found _ => exact ⟨_, found⟩
      | child found _ _ _ => exact ⟨_, found⟩
    refine ⟨place.below m.kind n.name, ?_, .child found named above stands⟩
    simp [extend, nodeAt_eq_ok_iff.mpr found, nodeAt_eq_ok_iff.mpr above, named, stored, Except.mapError, Bind.bind,
      Except.bind, Pure.pure, Except.pure]

/-- Positions that come behind their parents are all placed, in their order. -/
theorem all_places {visited : List Position} (parentless : parentAt (nodes.map (·.toLinks)) root = none)
    (distinct : visited.Nodup) (inside : ∀ p ∈ visited, Inside nodes.length p)
    (ordered : ParentsFirst (nodes.map (·.toLinks)) root visited) :
    ∃ places, all nodes visited.reverse = .ok places ∧ places.map Prod.fst = visited.reverse ∧
      Faithful nodes places := by
  unfold all
  rw [List.foldlM_reverse]
  induction visited with
  | nil => exact ⟨[], rfl, rfl, fun q place stored => by simp [Assoc.get?] at stored⟩
  | cons p earlier ih =>
    obtain ⟨fresh, distinct⟩ := List.nodup_cons.mp distinct
    obtain ⟨places, ran, keys, faithful⟩ :=
      ih distinct (fun q member => inside q (List.mem_cons_of_mem _ member)) ordered.2
    have parent : parentAt (nodes.map (·.toLinks)) p = none ∨
        ∃ x ∈ places.map Prod.fst, parentAt (nodes.map (·.toLinks)) p = some x := by
      rcases ordered.1 with rfl | ⟨x, known, named⟩
      · exact .inl parentless
      · exact .inr ⟨x, keys ▸ List.mem_reverse.mpr known, named⟩
    obtain ⟨place, extended, stands⟩ := extend_places (inside p List.mem_cons_self) faithful parent
    refine ⟨Assoc.put places p place, ?_, ?_, ?_⟩
    · rw [List.foldrM_cons, ran]
      exact extended
    · rw [Assoc.keys_put, if_neg (by simpa [keys] using fresh), keys, List.reverse_cons]
    · intro q other stored
      rw [Assoc.get?_put] at stored
      split at stored
      · rename_i same
        cases stored
        exact same ▸ stands
      · exact faithful q other stored

/-- A node with its place filled in, if it has one. -/
def placedNode (places : List (Position × Place)) (i : Nat) (n : Node) : Node :=
  match Assoc.get? places (i : Position) with
  | some place => { n with path := some place.path, depth := place.depth }
  | none => n

/-- Nodes that all have a place are filled in one by one. -/
theorem fill_succeeds {places : List (Position × Place)}
    (each : ∀ i : Nat, i < nodes.length → (i : Position) ∈ places.map Prod.fst) :
    fill nodes places = .ok (nodes.mapIdx (placedNode places)) := by
  rw [fill, List.mapIdx_eq_zipIdx_map]
  apply mapM_succeeds nodes.zipIdx
  intro entry member
  have bound := (List.getElem?_eq_some_iff.mp (List.mem_zipIdx_iff_getElem?.mp member)).1
  obtain ⟨place, stored⟩ := Option.isSome_iff_exists.mp (Assoc.isSome_get?_iff.mpr (each entry.2 bound))
  simp [placedNode, stored]

end PayloadSchema.Place
