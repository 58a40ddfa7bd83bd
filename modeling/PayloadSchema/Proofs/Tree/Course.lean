import PayloadSchema.Proofs.Arena.ChildOrder
import PayloadSchema.Proofs.Arena.Traversals
import PayloadSchema.Proofs.Tree.Structure

/-! The course of building. Steps of it have no answer on some inputs, and each stage keeps its own from the later ones:
whatever descriptors it is given, building comes to an outcome, and on the way there every step that it takes has an
answer. -/
namespace PayloadSchema.SchemaTree
open Arena Descriptor Linking Place Walk

variable {limits : Limits} {ds : List Descriptor} {nodes : List Node} {root : Nat} {order : List Position} {w : Walk}
  {places : List (Position × Place)}

/-- What linking comes to when the rules are passed. -/
structure Linked (normal : List Descriptor) (nodes : List Node) : Prop where
  /-- Every declared type is one of the catalog. -/
  converted : link normal = .ok nodes
  /-- Every child has a place in the list of children by which it can be sorted. -/
  sorted : ∀ d ∈ normal, sortedChildren (normal.map (·.name)) d = .ok (linksOf (normal.map (·.name)) d).children

/-- What the walk over linked nodes comes to when their links are resolved, whether they make a tree or not. -/
structure Traversed (nodes : List Node) (root : Nat) (order : List Position) (w : Walk)
    (places : List (Position × Place)) : Prop where
  /-- There is a node without a parent. -/
  rooted : nodes.findIdx? (·.isRoot) = some root
  walked : Walk.whole (nodes.map (·.toLinks)) root = .ok (order, w)
  placed : Place.all nodes order = .ok places
  /-- The nodes that the walk comes to, their children and their parents are all in the arena. -/
  inRange : ∀ p ∈ order, ∃ n, nodeAt nodes p = .ok n ∧ (∀ c ∈ n.children, ∃ m, nodeAt nodes c = .ok m) ∧
    ∀ x, n.parent = some x → ∃ m, nodeAt nodes x = .ok m
  /-- When a node is reached, it is the root, or its parent has got a path and a level by then. -/
  parentPlaced : ∀ (front : List Position) (p : Position) (back : List Position), order = front ++ p :: back → p = root ∨
    ∃ x known place, parentAt (nodes.map (·.toLinks)) p = some x ∧ Place.all nodes front = .ok known ∧
      Assoc.get? known x = some place

/-- How far building comes, with the answers of all steps that it takes. -/
inductive Course (limits : Limits) (ds : List Descriptor) : Outcome → Prop where
  /-- The rules are broken. -/
  | refused {normal : List Descriptor} {p : Problem} {rest : List Problem}
      (looked : validate limits ds = (normal, p :: rest)) : Course limits ds (.rejected (p :: rest))
  /-- Links are not resolved. -/
  | unresolved {normal : List Descriptor} {nodes : List Node} {p : Problem} {rest : List Problem}
      (passed : validate limits ds = (normal, [])) (linked : Linked normal nodes)
      (found : Linking.problems normal = p :: rest) : Course limits ds (.rejected (p :: rest))
  /-- The walk finds no tree. -/
  | strayed {normal : List Descriptor} {nodes : List Node} {root : Nat} {order : List Position} {w : Walk}
      {places : List (Position × Place)} {p : Problem} {rest : List Problem}
      (passed : validate limits ds = (normal, [])) (linked : Linked normal nodes)
      (resolved : Linking.problems normal = []) (traversed : Traversed nodes root order w places)
      (found : walkProblems nodes.length w = p :: rest) : Course limits ds (.rejected (p :: rest))
  /-- There are too many levels. -/
  | tooDeep {normal : List Descriptor} {nodes placed : List Node} {root : Nat} {order : List Position} {w : Walk}
      {places : List (Position × Place)} {p : Problem} {rest : List Problem}
      (passed : validate limits ds = (normal, [])) (linked : Linked normal nodes)
      (resolved : Linking.problems normal = []) (traversed : Traversed nodes root order w places)
      (whole : walkProblems nodes.length w = []) (filled : Place.fill nodes places = .ok placed)
      (found : depthProblems limits placed = p :: rest) : Course limits ds (.rejected (p :: rest))
  /-- The nodes are bound and make a tree, which can be walked in turn. -/
  | finished {normal : List Descriptor} {nodes placed : List Node} {root : Nat} {order : List Position} {w : Walk}
      {places : List (Position × Place)} {cells : List Cell} {t : SchemaTree}
      (passed : validate limits ds = (normal, [])) (linked : Linked normal nodes)
      (resolved : Linking.problems normal = []) (traversed : Traversed nodes root order w places)
      (whole : walkProblems nodes.length w = []) (filled : Place.fill nodes places = .ok placed)
      (shallow : depthProblems limits placed = [])
      (bound : Arena.bind (placed.map fun n => ⟨n, []⟩) = (none, cells))
      (assembled : assemble limits normal root (indexOf nodes places) placed = .ok t)
      (listed : Walk.whole t.links t.root.index = .ok (order, w)) : Course limits ds (.built t)

theorem inside_found {p : Position} (inside : Inside nodes.length p) : ∃ n, nodeAt nodes p = .ok n := by
  obtain ⟨n, _, found⟩ := nodeAt?_inside inside
  exact ⟨n, nodeAt_eq_ok_iff.mpr found⟩

section Surveyed
variable (closed : Closed (nodes.map (·.toLinks))) (first : nodes.findIdx? (·.isRoot) = some root)
  (surveyed : Surveyed nodes root order w places)
include closed first surveyed

theorem order_inside {p : Position} (member : p ∈ order) : Inside nodes.length p := by
  have reached := (surveyed.visited p).mp member
  simpa using reached_inside closed (root_inside first).1 reached

theorem order_reverse : w.visited = order.reverse := by
  obtain ⟨_, _, ran, _, _, seen, _⟩ := whole_sound closed (root_inside first).1
  obtain ⟨rfl, rfl⟩ := Prod.mk.inj (Except.ok.inj (ran.symm.trans surveyed.walked))
  exact seen

theorem parent_before {front back : List Position} {p : Position} (cut : order = front ++ p :: back) :
    (p = root ∨ ∃ x ∈ front, parentAt (nodes.map (·.toLinks)) p = some x) ∧
      ParentsFirst (nodes.map (·.toLinks)) root front.reverse :=
  parents_first_cut (order_reverse closed first surveyed ▸ surveyed.sound.parentsFirst) cut

/-- Wherever the order of the walk is cut, the parent of the node that comes next has its place by then. -/
theorem parent_placed {front back : List Position} {p : Position} (cut : order = front ++ p :: back) :
    p = root ∨ ∃ x known place, parentAt (nodes.map (·.toLinks)) p = some x ∧ Place.all nodes front = .ok known ∧
      Assoc.get? known x = some place := by
  obtain ⟨next, earlier⟩ := parent_before closed first surveyed cut
  refine next.imp_right fun ⟨x, known, named⟩ => ?_
  have distinct : front.Nodup := (List.nodup_append.mp (cut ▸ surveyed.distinct)).1
  have inside : ∀ q ∈ front, Inside nodes.length q := fun q member =>
    order_inside closed first surveyed (cut ▸ List.mem_append_left _ member)
  obtain ⟨before, ran, keys, _⟩ := all_places (root_inside first).2 (List.nodup_reverse.mpr distinct)
    (fun q member => inside q (List.mem_reverse.mp member)) earlier
  rw [List.reverse_reverse] at ran keys
  obtain ⟨place, stored⟩ := Option.isSome_iff_exists.mp (Assoc.isSome_get?_iff.mpr (keys ▸ known))
  exact ⟨x, before, place, named, ran, stored⟩

theorem traversed_of_survey : Traversed nodes root order w places where
  rooted := first
  walked := surveyed.walked
  placed := surveyed.placed
  inRange p member := by
    have inside := order_inside closed first surveyed member
    obtain ⟨n, found⟩ := inside_found inside
    have links := nodeAt_eq_ok_iff.mp found
    refine ⟨n, found, fun c listed => ?_, fun x named => ?_⟩
    · rw [← childrenAt_links links] at listed
      exact inside_found (by simpa using closed_children closed (by simpa using inside) listed)
    · rw [← parentAt_links links] at named
      obtain ⟨front, back, cut⟩ := List.append_of_mem member
      rcases (parent_before closed first surveyed cut).1 with rfl | ⟨y, known, naming⟩
      · rw [(root_inside first).2] at named
        cases named
      · obtain rfl := Option.some.inj (naming.symm.trans named)
        exact inside_found (order_inside closed first surveyed (cut ▸ List.mem_append_left _ known))
  parentPlaced _ _ _ := parent_placed closed first surveyed

end Surveyed

/-- What passes the rules is admissible, and stays as it is from then on. -/
theorem validated {normal : List Descriptor} (passed : validate limits ds = (normal, [])) :
    (∀ d ∈ normal, Admissible limits d) ∧ Collected normal := by
  obtain ⟨admissible, collected⟩ := validate_accepts_iff.mp (congrArg Prod.snd passed)
  obtain rfl : ds.map Descriptor.normal = normal := (validate_normal admissible).symm.trans (congrArg Prod.fst passed)
  exact ⟨List.forall_mem_map.mpr fun d member => admissible_normal (admissible d member),
    collected_normal.mpr collected⟩

theorem linked_of_validated {normal : List Descriptor} (passed : validate limits ds = (normal, [])) :
    Linked normal (linkedNodes normal) where
  converted := link_succeeds fun d member => by
    obtain ⟨kind, declared, _⟩ := ((validated passed).1 d member).shaped
    rw [kind_eq_some_iff.mpr declared]
    rfl
  sorted d _ := sortedChildren_eq (names_distinct (validated passed).2.distinct) d

/-- Resolved nodes are walked, placed and bound, or there is something wrong with them. -/
theorem grow_course {normal : List Descriptor} (passed : validate limits ds = (normal, []))
    (resolved : Linking.problems normal = []) :
    ∃ o, grow limits normal (linkedNodes normal) = .ok o ∧ Course limits ds o := by
  have linked := linked_of_validated passed
  obtain ⟨admissible, collected⟩ := validated passed
  have linkable : Linkable normal := ⟨fun d member => (admissible d member).named, collected,
    (problems_eq_nil_iff (names_distinct collected.distinct)).mp resolved⟩
  obtain ⟨root, _, first, _, _⟩ := root_found linkable
  have closed : Closed ((linkedNodes normal).map (·.toLinks)) := linkedNodes_nameLinks normal ▸ nameLinks_closed normal
  obtain ⟨order, w, places, surveyed⟩ := survey closed first
  have traversed := traversed_of_survey closed first surveyed
  cases whole : walkProblems (linkedNodes normal).length w with
  | cons p rest => exact ⟨_, grow_strayed first surveyed whole, .strayed passed linked resolved traversed whole⟩
  | nil =>
    have accepts := accepts_iff closed (root_inside first).1 surveyed.sound surveyed.finished
    rw [List.length_map] at accepts
    have tree := accepts.mp (walk_problems_eq_nil_iff.mp whole)
    have filled := fill_placed closed first surveyed tree
    obtain ⟨r, found, grew⟩ := @grow_tree limits normal _ _ _ _ _ closed first linked_indexed surveyed tree
    cases depth : depthProblems limits (placedNodes (linkedNodes normal) places) with
    | cons p rest =>
      rw [depth] at grew
      exact ⟨_, grew, .tooDeep passed linked resolved traversed whole filled depth⟩
    | nil =>
      rw [depth] at grew
      have indexed : ∀ (i : Nat) n, (placedNodes (linkedNodes normal) places)[i]? = some n → n.index = i :=
        placed_indexed linked_indexed
      have listed : Walk.whole ((placedNodes (linkedNodes normal) places).map (·.toLinks)) r.index = .ok (order, w) := by
        rw [placed_links, indexed root r (by rwa [nodeAt?_natCast] at found)]
        exact surveyed.walked
      exact ⟨_, grew, .finished passed linked resolved traversed whole filled depth (bind_fresh indexed)
        (assemble_placed linked_indexed found) listed⟩

/-- Examination comes to an outcome whatever it is given, and no step on the way there is without an answer. -/
theorem examine_course (limits : Limits) (ds : List Descriptor) :
    ∃ o, examine limits ds = .ok o ∧ Course limits ds o := by
  cases looked : validate limits ds with
  | mk normal found =>
    cases found with
    | cons p rest => exact ⟨_, by simp only [examine, looked], .refused looked⟩
    | nil =>
      have linked := linked_of_validated looked
      cases links : Linking.problems normal with
      | cons p rest => exact ⟨_, by simp only [examine, looked, links], .unresolved looked linked links⟩
      | nil =>
        have grows : examine limits ds = grow limits normal (linkedNodes normal) := by
          simp only [examine, looked, links, linked.converted, Except.mapError, Bind.bind, Except.bind]
        exact grows ▸ grow_course looked links

/-- No step of building is without an answer, and building comes to an outcome, unless a limit that would have to be told
has too many digits. -/
theorem build_course (limits : Limits) (ds : List Descriptor) :
    ∃ o, Course limits ds o ∧ Told limits o (build limits ds) := by
  obtain ⟨o, ran, course⟩ := examine_course limits ds
  exact ⟨o, course, build_told ran⟩

/-- Building need not come to an outcome. -/
theorem chest_unbuilt : ¬ ∀ (limits : Limits) (ds : List Descriptor), ∃ o, build limits ds = .ok o := fun every => by
  obtain ⟨o, ran⟩ := every vast chest
  cases chest_unwritable.symm.trans ran

end PayloadSchema.SchemaTree
