import PayloadSchema.Proofs.Arena.Placing
import PayloadSchema.Tree.Build

/-! What becomes of linked nodes. Growing a tree from them never fails on the way: it refuses what makes no tree or
is too deep, and otherwise gives the nodes as they are with their places filled in. -/
namespace PayloadSchema.SchemaTree
open Arena Walk Place

variable {limits : Limits} {normal : List Descriptor} {nodes : List Node}

theorem no_obstacle (position : Nat) (indexed : ∀ (i : Nat) n, nodes[i]? = some n → n.index = (position + i : Nat)) :
    firstObstacle? position (nodes.map fun n => ⟨n, []⟩) = none := by
  induction nodes generalizing position with
  | nil => rfl
  | cons n rest ih =>
    have first : n.index = position := by simpa using indexed 0 n rfl
    have behind := ih (position + 1) fun i m found => by
      rw [indexed (i + 1) m (by simpa using found)]
      congr 1
      omega
    simp [firstObstacle?, obstacle?, first, behind]

/-- Nodes that stand where they are meant to are bound. -/
theorem bind_fresh (indexed : ∀ (i : Nat) n, nodes[i]? = some n → n.index = i) :
    Arena.bind (nodes.map fun n => ⟨n, []⟩) = (none, nodes.map fun n => ⟨n, nodes⟩) := by
  have free := no_obstacle 0 fun i n found => by rw [indexed i n found, Nat.zero_add]
  simp [Arena.bind, free, Function.comp_def]

theorem max_le_iff {xs : List Nat} {bound : Nat} : xs.max?.getD 0 ≤ bound ↔ ∀ x ∈ xs, x ≤ bound := by
  cases found : xs.max? with
  | none => simp [List.max?_eq_none_iff.mp found]
  | some most =>
    obtain ⟨member, above⟩ := List.max?_eq_some_iff.mp found
    exact ⟨fun small x listed => Nat.le_trans (above x listed) small, fun every => every most member⟩

/-- Only leaves are measured. -/
theorem depth_eq_nil_iff : depthProblems limits nodes = [] ↔ ∀ n ∈ nodes, n.isLeaf → n.depth ≤ limits.maxDepth := by
  simp only [depthProblems, Problem.reportIf_eq_nil_iff, decide_eq_false_iff_not, Nat.not_lt, max_le_iff,
    List.mem_map, List.mem_filter]
  constructor
  · intro every n member leaf
    exact every n.depth ⟨n, ⟨member, leaf⟩, rfl⟩
  · rintro every depth ⟨n, ⟨member, leaf⟩, rfl⟩
    exact every n member leaf

theorem walk_problems_eq_nil_iff {w : Walk} {size : Nat} :
    walkProblems size w = [] ↔ w.cyclic = false ∧ w.visitedCount = size := by
  simp [walkProblems, Problem.reportIf_eq_nil_iff]

/-- Nodes with their places filled in. -/
def placedNodes (nodes : List Node) (places : List (Position × Place)) : List Node :=
  nodes.mapIdx (placedNode places)

/-- The tree of placed nodes. -/
def ofPlaces (limits : Limits) (normal : List Descriptor) (nodes : List Node) (places : List (Position × Place))
    (root : Node) : SchemaTree where
  nodes := placedNodes nodes places
  root := root
  paths := indexOf nodes places
  descriptors := normal
  limits := limits

/-- What the walk over linked nodes finds out: an order, the end of the walk, and the places along it. -/
structure Surveyed (nodes : List Node) (root : Position) (order : List Position) (w : Walk)
    (places : List (Position × Place)) : Prop where
  walked : Walk.whole (nodes.map (·.toLinks)) root = .ok (order, w)
  sound : w.Sound (nodes.map (·.toLinks)) root
  finished : w.stack = []
  descent : Descent (below (nodes.map (·.toLinks)) root) [root] order
  distinct : order.Nodup
  visited : ∀ p, p ∈ order ↔ Reached (nodes.map (·.toLinks)) root p
  placed : Place.all nodes order = .ok places
  keys : places.map Prod.fst = order
  faithful : Faithful nodes places

theorem root_inside {root : Nat} (first : nodes.findIdx? (·.isRoot) = some root) :
    Inside (nodes.map (·.toLinks)).length root ∧ parentAt (nodes.map (·.toLinks)) root = none := by
  obtain ⟨bound, isRoot, _⟩ := List.findIdx?_eq_some_iff_getElem.mp first
  refine ⟨inside_iff.mpr ⟨root, by simpa using bound, rfl⟩, ?_⟩
  rw [parentAt_links (n := nodes[root]) (by rw [nodeAt?_natCast, List.getElem?_eq_getElem bound])]
  simpa [Node.isRoot] using isRoot

theorem survey {root : Nat} (closed : Closed (nodes.map (·.toLinks)))
    (first : nodes.findIdx? (·.isRoot) = some root) : ∃ order w places, Surveyed nodes root order w places := by
  obtain ⟨inside, parentless⟩ := root_inside first
  obtain ⟨order, w, ran, sound, finished, seen, descent⟩ := whole_sound closed inside
  have distinct : w.visited.Nodup := by simpa [finished] using sound.fresh
  have reached := fun p => mem_visited_iff (p := p) sound finished
  have within : ∀ p ∈ w.visited, Inside nodes.length p := fun p member => by
    simpa using reached_inside closed inside ((reached p).mp member)
  obtain ⟨places, placed, keys, faithful⟩ := all_places parentless distinct within sound.parentsFirst
  have ordered : w.visited.reverse = order := by rw [seen, List.reverse_reverse]
  rw [ordered] at placed keys
  refine ⟨order, w, places, ran, sound, finished, descent, ?_, fun p => ?_, placed, keys, faithful⟩
  · rw [← ordered]
    exact List.nodup_reverse.mpr distinct
  · rw [← ordered, List.mem_reverse, reached]

variable {root : Nat} {order : List Position} {w : Walk} {places : List (Position × Place)}

theorem placed_indexed (indexed : ∀ (i : Nat) n, nodes[i]? = some n → n.index = i) (i : Nat) (n : Node)
    (found : (placedNodes nodes places)[i]? = some n) : n.index = i := by
  simp only [placedNodes, List.getElem?_mapIdx, Option.map_eq_some_iff] at found
  obtain ⟨m, linked, rfl⟩ := found
  have same : (placedNode places i m).index = m.index := by
    unfold placedNode
    split <;> rfl
  rw [same, indexed i m linked]

/-- Every position is visited by the walk over a tree. -/
theorem survey_full (closed : Closed (nodes.map (·.toLinks))) (first : nodes.findIdx? (·.isRoot) = some root)
    (surveyed : Surveyed nodes root order w places) (tree : IsTree (nodes.map (·.toLinks)) root) {p : Position}
    (inside : Inside nodes.length p) : p ∈ order := by
  have start := (root_inside first).1
  have accepted := (accepts_iff closed start surveyed.sound surveyed.finished).mpr tree
  rw [surveyed.visited]
  exact (visited_count_iff closed start surveyed.sound surveyed.finished).mp accepted.2 p (by simpa using inside)

/-- In a tree every node is placed where its parents say. -/
theorem placed_at (closed : Closed (nodes.map (·.toLinks))) (first : nodes.findIdx? (·.isRoot) = some root)
    (surveyed : Surveyed nodes root order w places) (tree : IsTree (nodes.map (·.toLinks)) root) {i : Nat} {n : Node}
    (found : nodes[i]? = some n) :
    ∃ place, Assoc.get? places (i : Position) = some place ∧ Stands nodes i place ∧
      (placedNodes nodes places)[i]? = some { n with path := some place.path, depth := place.depth } := by
  have inside := inside_iff.mpr ⟨i, (List.getElem?_eq_some_iff.mp found).1, rfl⟩
  have known : (i : Position) ∈ places.map Prod.fst := surveyed.keys ▸ survey_full closed first surveyed tree inside
  obtain ⟨place, stored⟩ := Option.isSome_iff_exists.mp (Assoc.isSome_get?_iff.mpr known)
  refine ⟨place, stored, surveyed.faithful _ place stored, ?_⟩
  simp [placedNodes, List.getElem?_mapIdx, found, placedNode, stored]

/-- It is enough to measure the leaves: below every node there is one. -/
theorem shallow_iff (closed : Closed (nodes.map (·.toLinks))) (first : nodes.findIdx? (·.isRoot) = some root)
    (surveyed : Surveyed nodes root order w places) (tree : IsTree (nodes.map (·.toLinks)) root) (most : Nat) :
    (∀ n ∈ placedNodes nodes places, n.isLeaf → n.depth ≤ most) ↔
      ∀ p k, Inside nodes.length p → Ascends (nodes.map (·.toLinks)) root k p → k + 1 ≤ most := by
  constructor
  · intro leaves p k inside above
    obtain ⟨q, j, qInside, barren, qAbove, deeper⟩ := leaf_below closed tree above (by simpa using inside)
    rw [List.length_map] at qInside
    obtain ⟨i, bound, rfl⟩ := inside_iff.mp qInside
    obtain ⟨place, _, stands, placed⟩ := placed_at closed first surveyed tree (List.getElem?_eq_getElem bound)
    have children : nodes[i].children = [] := by
      rw [← childrenAt_links (by rw [nodeAt?_natCast, List.getElem?_eq_getElem bound]), barren]
    have small := leaves _ (List.mem_of_getElem? placed) (by simp [Node.isLeaf, children])
    have depth := stands_depth tree.parentless qAbove stands
    simp only at small
    omega
  · intro every n member _
    obtain ⟨i, found⟩ := List.mem_iff_getElem?.mp member
    have bound : i < nodes.length := by
      simpa [placedNodes] using (List.getElem?_eq_some_iff.mp found).1
    have inside := inside_iff.mpr ⟨i, bound, rfl⟩
    obtain ⟨place, _, stands, placed⟩ := placed_at closed first surveyed tree (List.getElem?_eq_getElem bound)
    obtain ⟨k, above⟩ := tree.ascends i (by simpa using inside)
    have depth := stands_depth tree.parentless above stands
    obtain rfl := Option.some.inj (placed.symm.trans found)
    exact depth ▸ every i k inside above

/-- What is wrong with the walk is all that growing reports. -/
theorem grow_strayed (first : nodes.findIdx? (·.isRoot) = some root) (surveyed : Surveyed nodes root order w places)
    {p : Problem} {rest : List Problem} (strayed : walkProblems nodes.length w = p :: rest) :
    grow limits normal nodes = .ok (.rejected (p :: rest)) := by
  simp only [grow, first, surveyed.walked, surveyed.placed, strayed, Except.mapError, Bind.bind, Except.bind,
    Pure.pure, Except.pure]

/-- Nodes that make no tree are refused by the walk. -/
theorem grow_no_tree (closed : Closed (nodes.map (·.toLinks))) (first : nodes.findIdx? (·.isRoot) = some root)
    (surveyed : Surveyed nodes root order w places) (noTree : ¬ IsTree (nodes.map (·.toLinks)) root) :
    ∃ p rest, grow limits normal nodes = .ok (.rejected (p :: rest)) := by
  have accepts := accepts_iff closed (root_inside first).1 surveyed.sound surveyed.finished
  rw [List.length_map] at accepts
  cases found : walkProblems nodes.length w with
  | nil => exact absurd (accepts.mp (walk_problems_eq_nil_iff.mp found)) noTree
  | cons p rest => exact ⟨p, rest, grow_strayed first surveyed found⟩

/-- Placed nodes are bound without an obstacle, and their root is among them. -/
theorem assemble_placed (indexed : ∀ (i : Nat) n, nodes[i]? = some n → n.index = i) {r : Node}
    (found : nodeAt? (placedNodes nodes places) root = some r) :
    assemble limits normal root (indexOf nodes places) (placedNodes nodes places) =
      .ok (ofPlaces limits normal nodes places r) := by
  simp only [assemble, bind_fresh (placed_indexed indexed), List.map_map, Function.comp_def, List.map_id',
    nodeAt_eq_ok_iff.mpr found, Except.mapError, Bind.bind, Except.bind, Pure.pure, Except.pure]
  rfl

/-- A walk that found a tree gives every node its place. -/
theorem fill_placed (closed : Closed (nodes.map (·.toLinks))) (first : nodes.findIdx? (·.isRoot) = some root)
    (surveyed : Surveyed nodes root order w places) (tree : IsTree (nodes.map (·.toLinks)) root) :
    fill nodes places = .ok (placedNodes nodes places) :=
  fill_succeeds fun i small =>
    surveyed.keys ▸ survey_full closed first surveyed tree (inside_iff.mpr ⟨i, small, rfl⟩)

/-- Nodes that make a tree grow into it, unless it is too deep. -/
theorem grow_tree (closed : Closed (nodes.map (·.toLinks))) (first : nodes.findIdx? (·.isRoot) = some root)
    (indexed : ∀ (i : Nat) n, nodes[i]? = some n → n.index = i) (surveyed : Surveyed nodes root order w places)
    (tree : IsTree (nodes.map (·.toLinks)) root) :
    ∃ r, nodeAt? (placedNodes nodes places) root = some r ∧
      grow limits normal nodes =
        match depthProblems limits (placedNodes nodes places) with
        | p :: rest => .ok (.rejected (p :: rest))
        | [] => .ok (.built (ofPlaces limits normal nodes places r)) := by
  have inside := (root_inside first).1
  have accepted := (accepts_iff closed inside surveyed.sound surveyed.finished).mpr tree
  rw [List.length_map] at accepted
  have clean := walk_problems_eq_nil_iff.mpr accepted
  have filled := fill_placed closed first surveyed tree
  have placedInside : Inside (placedNodes nodes places).length root := by simpa [placedNodes] using inside
  obtain ⟨r, _, found⟩ := nodeAt?_inside placedInside
  refine ⟨r, found, ?_⟩
  simp only [grow, first, surveyed.walked, surveyed.placed, clean, filled, Except.mapError, Bind.bind, Except.bind,
    Pure.pure, Except.pure]
  cases depthProblems limits (placedNodes nodes places) with
  | cons p rest => rfl
  | nil => simp only [assemble_placed indexed found]

end PayloadSchema.SchemaTree
