import PayloadSchema.Proofs.Tree.Acceptance
import PayloadSchema.Proofs.Tree.Branches

/-! What every tree that was built is like: its nodes stand for the descriptors, parents and children name each
other, walking lists its branches in order, and levels are counted from the root. -/
namespace PayloadSchema.SchemaTree
open Arena Descriptor Linking Place Walk Branch

variable {limits : Limits} {ds : List Descriptor} {root : Nat} {order : List Position} {w : Walk}
  {places : List (Position × Place)} {t : SchemaTree} {n m : Node} {k : Nat}

theorem placed_links (nodes : List Node) (places : List (Position × Place)) :
    (placedNodes nodes places).map (·.toLinks) = nodes.map (·.toLinks) := by
  refine List.ext_getElem (by simp [placedNodes]) fun i bound _ => ?_
  simp only [placedNodes, List.getElem_map, List.getElem_mapIdx, placedNode]
  split <;> rfl

theorem grown_nodes (grown : Grown limits ds root order w places t) :
    t.nodes = placedNodes (linkedNodes ds) places :=
  congrArg SchemaTree.nodes grown.built

theorem grown_links (grown : Grown limits ds root order w places t) : t.nodes.map (·.toLinks) = nameLinks ds := by
  rw [grown_nodes grown, placed_links, linkedNodes_nameLinks]

theorem grown_shaped (grown : Grown limits ds root order w places t) : TreeShaped t.nodes root where
  indexed := grown_nodes grown ▸ placed_indexed linked_indexed
  closed := grown_links grown ▸ nameLinks_closed ds
  inside := by
    have inside := (root_inside grown.first).1
    rwa [linkedNodes_nameLinks, ← grown_links grown, List.length_map] at inside
  tree := grown_links grown ▸ grown.tree

/-- The node of a descriptor, with its place. -/
theorem grown_at (grown : Grown limits ds root order w places t) {i : Nat} {d : Descriptor}
    (found : ds[i]? = some d) :
    ∃ place, Stands (linkedNodes ds) i place ∧
      t.nodes[i]? =
        some { linkedNode (ds.map (·.name)) i d with path := some place.path, depth := place.depth } := by
  have closed : Closed ((linkedNodes ds).map (·.toLinks)) := linkedNodes_nameLinks ds ▸ nameLinks_closed ds
  have tree : IsTree ((linkedNodes ds).map (·.toLinks)) root := linkedNodes_nameLinks ds ▸ grown.tree
  obtain ⟨place, _, stands, placed⟩ := placed_at closed grown.first grown.surveyed tree (linked_at found)
  exact ⟨place, stands, grown_nodes grown ▸ placed⟩

theorem grown_length (grown : Grown limits ds root order w places t) : t.nodes.length = ds.length := by
  simp [grown_nodes grown, placedNodes, linkedNodes]

/-- Every node is that of a descriptor. -/
theorem grown_node (grown : Grown limits ds root order w places t) (member : n ∈ t.nodes) :
    ∃ (i : Nat) (d : Descriptor) (place : Place), ds[i]? = some d ∧ n.index = i ∧ Stands (linkedNodes ds) i place ∧
      n = { linkedNode (ds.map (·.name)) i d with path := some place.path, depth := place.depth } := by
  obtain ⟨i, found⟩ := List.mem_iff_getElem?.mp member
  have bound : i < ds.length := grown_length grown ▸ (List.getElem?_eq_some_iff.mp found).1
  have standing := List.getElem?_eq_getElem bound
  obtain ⟨place, stands, placed⟩ := grown_at grown standing
  exact ⟨i, ds[i], place, standing, (grown_shaped grown).indexed i n found, stands,
    Option.some.inj (found.symm.trans placed)⟩

theorem grown_level (grown : Grown limits ds root order w places t) (member : n ∈ t.nodes)
    (above : Ascends (t.nodes.map (·.toLinks)) root k n.index) : n.depth = k + 1 := by
  obtain ⟨i, d, place, found, at_i, stands, rfl⟩ := grown_node grown member
  rw [grown_links grown, ← linkedNodes_nameLinks, at_i] at above
  exact stands_depth (root_inside grown.first).2 above stands

theorem grown_level_exists (grown : Grown limits ds root order w places t) (member : n ∈ t.nodes) :
    Ascends (t.nodes.map (·.toLinks)) root (n.depth - 1) n.index ∧ 1 ≤ n.depth := by
  obtain ⟨k, above⟩ := (grown_shaped grown).tree.ascends n.index
    (by simpa using (grown_shaped grown).index_inside member)
  have level := grown_level grown member above
  exact ⟨by rwa [level, Nat.add_sub_cancel], by omega⟩

theorem grown_root (grown : Grown limits ds root order w places t) : t.root ∈ t.nodes ∧ t.root.index = root := by
  obtain ⟨n, member, same, found⟩ := (grown_shaped grown).node_at (grown_shaped grown).inside
  obtain rfl := Option.some.inj (found.symm.trans grown.top)
  exact ⟨member, same⟩

theorem grown_parentless (grown : Grown limits ds root order w places t) (member : n ∈ t.nodes) :
    n.parent = none ↔ n = t.root := by
  have shaped := grown_shaped grown
  obtain ⟨rootMember, at_root⟩ := grown_root grown
  constructor
  · intro parentless
    rcases shaped.parent_cases member with ⟨_, same⟩ | ⟨m, _, named, _⟩
    · exact shaped.eq_of_index member rootMember (same.trans at_root.symm)
    · simp [parentless] at named
  · rintro rfl
    rw [← parentAt_links (shaped.at_index rootMember), at_root, shaped.tree.parentless]

theorem grown_kind (grown : Grown limits ds root order w places t) (member : n ∈ t.nodes) :
    n.descriptor ∈ ds ∧ n.descriptor.Declares n.kind ∧ n.descriptor.Shaped limits n.kind := by
  obtain ⟨i, d, place, found, _, _, rfl⟩ := grown_node grown member
  have known := List.mem_of_getElem? found
  obtain ⟨kind, declared, shaped⟩ := grown.forms.typed d known
  have same : d.kind?.getD .object = kind := by rw [kind_eq_some_iff.mpr declared, Option.getD_some]
  exact ⟨known, by simpa [linkedNode, same] using declared, by simpa [linkedNode, same] using shaped⟩

theorem grown_names (grown : Grown limits ds root order w places t) : t.nodes.map (·.descriptor) = ds := by
  refine List.ext_getElem (by simp [grown_length grown]) fun i bound small => ?_
  obtain ⟨place, _, placed⟩ := grown_at grown (List.getElem?_eq_getElem small)
  have same := (List.getElem?_eq_some_iff.mp placed).2
  simp [same, linkedNode]

theorem grown_distinct (grown : Grown limits ds root order w places t) : (t.nodes.map (·.name)).Nodup := by
  have names : t.nodes.map (·.name) = ds.map (·.name) := by
    rw [← grown_names grown, List.map_map]
    rfl
  exact names ▸ grown.forms.names

/-- The children of a node stand in the order in which they were listed. -/
theorem grown_children (grown : Grown limits ds root order w places t) (member : n ∈ t.nodes) :
    (childNodes t.nodes n).map (·.name) = n.descriptor.childNames := by
  obtain ⟨i, d, place, found, _, _, rfl⟩ := grown_node grown member
  obtain ⟨once, listed⟩ := grown.forms.listed d (List.mem_of_getElem? found)
  have known : ∀ s ∈ d.childNames, s ∈ ds.map (·.name) := fun s name => List.mem_map.mpr (listed s name)
  simp only [childNodes, linkedNode, children_in_order grown.forms.names once known, List.filterMap_map,
    List.map_filterMap]
  refine (List.filterMap_congr fun s name => ?_).trans List.filterMap_some
  have bound : (ds.map (·.name)).idxOf s < (ds.map (·.name)).length := List.idxOf_lt_length_of_mem (known s name)
  have small : (ds.map (·.name)).idxOf s < ds.length := by simpa using bound
  obtain ⟨place, _, placed⟩ := grown_at grown (List.getElem?_eq_getElem small)
  have same := List.getElem_idxOf bound
  rw [List.getElem_map] at same
  simp [nodeAt?_natCast, placed, linkedNode, Node.name, same]

theorem grown_walked (grown : Grown limits ds root order w places t) :
    Walk.whole t.links t.root.index = .ok (order, w) := by
  rw [links, (grown_root grown).2, grown_links grown, ← linkedNodes_nameLinks]
  exact grown.surveyed.walked

theorem grown_order (grown : Grown limits ds root order w places t) : t.order = order := by
  unfold SchemaTree.order
  rw [grown_walked grown]

theorem grown_descent (grown : Grown limits ds root order w places t) :
    Descent (below (t.nodes.map (·.toLinks)) root) [(root : Position)] t.order := by
  rw [grown_order grown, grown_links grown, ← linkedNodes_nameLinks]
  exact grown.surveyed.descent

theorem grown_inside (grown : Grown limits ds root order w places t) {p : Position} :
    p ∈ t.order ↔ Inside t.nodes.length p := by
  have shaped := grown_shaped grown
  have size : (t.nodes.map (·.toLinks)).length = t.nodes.length := List.length_map _
  have closed : Closed ((linkedNodes ds).map (·.toLinks)) := linkedNodes_nameLinks ds ▸ nameLinks_closed ds
  have tree : IsTree ((linkedNodes ds).map (·.toLinks)) root := linkedNodes_nameLinks ds ▸ grown.tree
  rw [grown_order grown]
  constructor
  · intro member
    have reached := (grown.surveyed.visited p).mp member
    rw [linkedNodes_nameLinks, ← grown_links grown] at reached
    exact size ▸ reached_inside shaped.closed (size ▸ shaped.inside) reached
  · intro inside
    apply survey_full closed grown.first grown.surveyed tree
    simpa [linkedNodes, grown_length grown] using inside

theorem preorder_index (grown : Grown limits ds root order w places t) : t.preorder.map (·.index) = t.order :=
  (grown_shaped grown).nodes_at fun _ member => (grown_inside grown).mp member

theorem preorder_nodup (grown : Grown limits ds root order w places t) : t.preorder.Nodup := by
  apply List.Nodup.of_map (·.index)
  rw [preorder_index grown, grown_order grown]
  exact grown.surveyed.distinct

theorem mem_preorder (grown : Grown limits ds root order w places t) : n ∈ t.preorder ↔ n ∈ t.nodes := by
  have shaped := grown_shaped grown
  simp only [preorder, List.mem_filterMap]
  constructor
  · rintro ⟨p, listed, found⟩
    obtain ⟨m, member, _, at_p⟩ := shaped.node_at ((grown_inside grown).mp listed)
    exact Option.some.inj (at_p.symm.trans found) ▸ member
  · intro member
    exact ⟨n.index, (grown_inside grown).mpr (shaped.index_inside member), shaped.at_index member⟩

/-- The walk lists what recursion over the whole tree lists. -/
theorem preorder_trunk (grown : Grown limits ds root order w places t) : t.preorder = t.trunk.preorder := by
  have shaped := grown_shaped grown
  have listed := descent_preorder shaped (grown_descent grown) (by simpa using shaped.inside)
  have single : [(root : Position)].filterMap (nodeAt? t.nodes) = [t.root] := by simp [grown.top]
  rw [single, List.flatMap_singleton] at listed
  exact listed

/-- Any number of steps of a fresh walk give the first positions of the order. -/
theorem fresh_walk (grown : Grown limits ds root order w places t) :
    ∃ begun, t.walk = .ok begun ∧
      ∀ count, ∃ taken, begun.steps t.links count = .ok taken ∧ taken.map Prod.fst = t.order.take count := by
  have shaped := grown_shaped grown
  have inside : Inside t.links.length root := by simpa [links] using shaped.inside
  obtain ⟨begun, started, sound, stack, _⟩ := start_sound inside
  refine ⟨begun, by rw [walk, (grown_root grown).2, started], fun count => ?_⟩
  obtain ⟨taken, ran, same, _⟩ := steps_along shaped.closed inside sound (stack ▸ grown_descent grown) count
  exact ⟨taken, ran, same⟩

/-- Below every node there is a leaf at its level or deeper. -/
theorem deeper_leaf (grown : Grown limits ds root order w places t) (member : n ∈ t.nodes) :
    ∃ m ∈ t.leaves, n.depth ≤ m.depth := by
  have shaped := grown_shaped grown
  have size : (t.nodes.map (·.toLinks)).length = t.nodes.length := List.length_map _
  obtain ⟨above, positive⟩ := grown_level_exists grown member
  obtain ⟨q, j, qInside, barren, qAbove, deeper⟩ :=
    leaf_below shaped.closed shaped.tree above (size ▸ shaped.index_inside member)
  obtain ⟨m, known, rfl, found⟩ := shaped.node_at (size ▸ qInside)
  rw [childrenAt_links found] at barren
  have level := grown_level grown known qAbove
  refine ⟨m, List.mem_filter.mpr ⟨(mem_preorder grown).mpr known, by simp [Node.isLeaf, barren]⟩, by omega⟩

/-- The levels of the leaves reach as deep as those of all nodes. -/
theorem depth_greatest (grown : Grown limits ds root order w places t) :
    (∀ n ∈ t.nodes, n.depth ≤ t.depth) ∧ ∃ n ∈ t.nodes, n.depth = t.depth := by
  obtain ⟨leaf, listed, _⟩ := deeper_leaf grown (grown_root grown).1
  cases found : (t.leaves.map (·.depth)).max? with
  | none =>
    have nothing := List.map_eq_nil_iff.mp (List.max?_eq_none_iff.mp found)
    rw [nothing] at listed
    cases listed
  | some most =>
    obtain ⟨attained, above⟩ := List.max?_eq_some_iff.mp found
    have depth : t.depth = most := by simp [SchemaTree.depth, found]
    rw [depth]
    refine ⟨fun n member => ?_, ?_⟩
    · obtain ⟨m, known, deeper⟩ := deeper_leaf grown member
      exact Nat.le_trans deeper (above _ (List.mem_map_of_mem known))
    · obtain ⟨m, known, same⟩ := List.mem_map.mp attained
      exact ⟨m, (mem_preorder grown).mp (List.mem_filter.mp known).1, same⟩

theorem grown_shallow (grown : Grown limits ds root order w places t) (member : n ∈ t.nodes) :
    n.depth ≤ limits.maxDepth := by
  have linkable := forms_linkable grown.forms
  obtain ⟨first, r, found, top, orphan⟩ := root_found linkable
  obtain rfl : first = root := Option.some.inj (found.symm.trans grown.first)
  have levels := ((forms_iff linkable (fun d => grown.forms.admissible) top orphan).mp grown.forms).2
  obtain ⟨above, positive⟩ := grown_level_exists grown member
  have inside := (grown_shaped grown).index_inside member
  rw [grown_links grown] at above
  have bound := levels n.index (n.depth - 1) (grown_length grown ▸ inside) above
  omega

theorem leaf_primitive (grown : Grown limits ds root order w places t) (member : n ∈ t.nodes) :
    n.isLeaf = n.kind.isPrimitive := by
  have count : n.children.length = n.descriptor.childNames.length := by
    rw [← grown_children grown member, ← (grown_shaped grown).childNodes_index member, List.length_map,
      List.length_map]
  have shaped := (grown_kind grown member).2.2
  have barren : n.isLeaf = n.descriptor.childNames.isEmpty := by
    rw [Bool.eq_iff_iff]
    simp [Node.isLeaf, ← List.length_eq_zero_iff, count]
  rw [barren]
  cases kind : n.kind <;> simp only [kind, Shaped] at shaped <;> simp [NodeType.isPrimitive, shaped]
  exact List.ne_nil_of_length_pos (by omega)

/-- What holds of every tree built from some descriptors. -/
structure WellBuilt (limits : Limits) (ds : List Descriptor) (t : SchemaTree) : Prop where
  inOrder : t.nodes.map (·.descriptor) = ds.map normal
  indexed : ∀ (i : Nat) n, t.nodes[i]? = some n → n.index = i
  typed : ∀ n ∈ t.nodes, n.descriptor.Declares n.kind
  children : ∀ n ∈ t.nodes, ∃ kids, n.childrenIn t.nodes = .ok kids ∧
    kids.map (·.name) = n.descriptor.childNames ∧
    ∀ m, m ∈ kids ↔ m ∈ t.nodes ∧ m.parentIn t.nodes = .ok (some n)
  rooted : t.root ∈ t.nodes ∧ t.root.kind = .object ∧ ∀ n ∈ t.nodes, n.parentIn t.nodes = .ok none ↔ n = t.root
  /-- Branches are made of a node and the branches of its children, in order. -/
  branches : ∀ n ∈ t.nodes, ∀ kids, n.childrenIn t.nodes = .ok kids → t.branch n = .mk n (kids.map t.branch)
  iterated : t.preorder = t.trunk.preorder ∧ t.trunk = t.branch t.root
  once : t.preorder.Nodup ∧ t.preorder.length = t.size ∧ ∀ n, n ∈ t.preorder ↔ n ∈ t.nodes
  /-- So many steps of a walk begun at any time lead to the first nodes of the preorder. -/
  fresh : ∃ begun, t.walk = .ok begun ∧ ∀ count, ∃ taken, begun.steps t.links count = .ok taken ∧
    taken.map (fun step => nodeAt? t.nodes step.1) = (t.trunk.preorder.take count).map some
  ancestors : ∀ n ∈ t.nodes, ∃ chain, n.ancestorsIn t.nodes = .ok chain ∧ chain.length + 1 = n.depth ∧
    Ancestry t.nodes (n :: chain) ∧ (n :: chain).getLast? = some t.root
  rootDepth : t.root.depth = 1
  childDepth : ∀ m ∈ t.nodes, ∀ n, m.parentIn t.nodes = .ok (some n) → m.depth = n.depth + 1
  deepest : (∀ n ∈ t.nodes, n.depth ≤ t.depth) ∧ (∃ n ∈ t.nodes, n.depth = t.depth) ∧ t.depth ≤ limits.maxDepth
  leaves : (∀ n ∈ t.nodes, n.isLeaf = n.kind.isPrimitive) ∧ t.leaves = t.trunk.preorder.filter (·.isLeaf)
  sized : ∀ n ∈ t.nodes, if n.kind = .array then limits.minArraySize ≤ n.size else n.size = unsetSize
  named : ∀ s n, t.node? s = some n ↔ n ∈ t.nodes ∧ n.name = s
  unknown : ∀ s, t.node? s = none ↔ ∀ n ∈ t.nodes, n.name ≠ s

theorem parentIn_eq_some_iff (grown : Grown limits ds root order w places t) (member : m ∈ t.nodes) :
    m.parentIn t.nodes = .ok (some n) ↔ n ∈ t.nodes ∧ m.parent = some n.index := by
  have shaped := grown_shaped grown
  constructor
  · intro found
    rcases shaped.parent_cases member with ⟨alone, _⟩ | ⟨e, known, named, same, _⟩
    · simp [Node.parentIn, alone] at found
    · obtain rfl : e = n := by simpa using same.symm.trans found
      exact ⟨known, named⟩
  · rintro ⟨known, named⟩
    simp [Node.parentIn, named, nodeAt_eq_ok_iff.mpr (shaped.at_index known), Except.map]

theorem parentIn_eq_none_iff (grown : Grown limits ds root order w places t) (member : n ∈ t.nodes) :
    n.parentIn t.nodes = .ok none ↔ n = t.root := by
  rw [← grown_parentless grown member]
  rcases (grown_shaped grown).parent_cases member with ⟨alone, _⟩ | ⟨e, known, named, same, _⟩
  · simp [Node.parentIn, alone]
  · simp [same, named]

theorem node_named_iff (grown : Grown limits ds root order w places t) {s : Text} :
    t.node? s = some n ↔ n ∈ t.nodes ∧ n.name = s := by
  unfold node?
  constructor
  · intro found
    exact ⟨List.mem_of_find?_eq_some found, by simpa using List.find?_some found⟩
  · rintro ⟨member, rfl⟩
    cases found : t.nodes.find? (·.name = n.name) with
    | none => simpa using List.find?_eq_none.mp found n member
    | some m =>
      have same : m.name = n.name := by simpa using List.find?_some found
      rw [List.inj_on_of_nodup_map (grown_distinct grown) (List.mem_of_find?_eq_some found) member same]

theorem grown_sized (grown : Grown limits (ds.map normal) root order w places t) (member : n ∈ t.nodes) :
    if n.kind = .array then limits.minArraySize ≤ n.size else n.size = unsetSize := by
  obtain ⟨known, declared, shaped⟩ := grown_kind grown member
  obtain ⟨d, _, same⟩ := List.mem_map.mp known
  split
  · next array =>
    simp only [array, Shaped] at shaped
    exact shaped.2
  · next other =>
    rw [← same, normal_declares] at declared
    simp [Node.size, ← same, normal, normalizeAs, kind_eq_some_iff.mpr declared, other]

theorem grown_ancestors (grown : Grown limits ds root order w places t) (member : n ∈ t.nodes) :
    ∃ chain, n.ancestorsIn t.nodes = .ok chain ∧ chain.length + 1 = n.depth ∧
      Ancestry t.nodes (n :: chain) ∧ (n :: chain).getLast? = some t.root := by
  have shaped := grown_shaped grown
  have inside := shaped.index_inside member
  obtain ⟨k, above⟩ := shaped.tree.ascends n.index (by simpa using inside)
  have bound := ascends_lt_length shaped.tree above (by simpa using inside)
  rw [List.length_map] at bound
  obtain ⟨chain, climbed, length, ancestry, last⟩ := shaped.climb_to_root member above (Nat.le_of_lt bound)
  exact ⟨chain, climbed, by rw [length, grown_level grown member above], ancestry, last.trans grown.top⟩

theorem grown_root_object (grown : Grown limits ds root order w places t) : t.root.kind = .object := by
  have linkable := forms_linkable grown.forms
  obtain ⟨first, r, found, standing, orphan⟩ := root_found linkable
  obtain rfl : first = root := Option.some.inj (found.symm.trans grown.first)
  obtain ⟨place, _, placed⟩ := grown_at grown standing
  have same := Option.some.inj (grown.top.symm.trans ((nodeAt?_natCast t.nodes first).trans placed))
  obtain ⟨top, single, object⟩ := linkable.collected.rooted
  have listed : r ∈ ds.filter fun d => !d.hasParent :=
    List.mem_filter.mpr ⟨List.mem_of_getElem? standing, by simpa using orphan⟩
  obtain rfl : r = top := by simpa [single] using listed
  simp [same, linkedNode, kind_eq_some_iff.mpr object]

theorem grown_well_built (grown : Grown limits (ds.map normal) root order w places t) : WellBuilt limits ds t where
  inOrder := grown_names grown
  indexed := (grown_shaped grown).indexed
  typed n member := (grown_kind grown member).2.1
  children n member := by
    have shaped := grown_shaped grown
    refine ⟨childNodes t.nodes n, shaped.childrenIn_eq member, grown_children grown member, fun m => ?_⟩
    rw [shaped.mem_childNodes member]
    apply and_congr_right
    intro known
    rw [parentIn_eq_some_iff grown known]
    exact (and_iff_right member).symm
  rooted := ⟨(grown_root grown).1, grown_root_object grown, fun _ => parentIn_eq_none_iff grown⟩
  branches n member kids found := by
    have shaped := grown_shaped grown
    obtain rfl := Except.ok.inj ((shaped.childrenIn_eq member).symm.trans found)
    exact whole_eq shaped member
  iterated := ⟨preorder_trunk grown, rfl⟩
  once := by
    have distinct := preorder_nodup grown
    have listed := fun n => mem_preorder (n := n) grown
    have perm := (List.perm_ext_iff_of_nodup distinct (grown_shaped grown).nodes_nodup).mpr listed
    exact ⟨distinct, perm.length_eq, listed⟩
  fresh := by
    obtain ⟨begun, started, every⟩ := fresh_walk grown
    refine ⟨begun, started, fun count => ?_⟩
    obtain ⟨taken, ran, same⟩ := every count
    refine ⟨taken, ran, ?_⟩
    have along : t.order.map (nodeAt? t.nodes) = t.preorder.map some := by
      rw [← preorder_index grown, List.map_map]
      exact List.map_congr_left fun n listed =>
        (grown_shaped grown).at_index ((mem_preorder grown).mp listed)
    calc taken.map (fun step => nodeAt? t.nodes step.1) = (taken.map Prod.fst).map (nodeAt? t.nodes) := by
          rw [List.map_map]; rfl
      _ = (t.preorder.take count).map some := by rw [same, List.map_take, along, List.map_take]
      _ = (t.trunk.preorder.take count).map some := by rw [preorder_trunk grown]
  ancestors _ member := grown_ancestors grown member
  rootDepth := by
    obtain ⟨member, at_root⟩ := grown_root grown
    exact grown_level grown member (at_root ▸ .root)
  childDepth m member n found := by
    have shaped := grown_shaped grown
    obtain ⟨known, named⟩ := (parentIn_eq_some_iff grown member).mp found
    obtain ⟨k, above⟩ := shaped.tree.ascends n.index (by simpa using shaped.index_inside known)
    have child := (shaped.mem_childNodes known).mpr ⟨member, named⟩
    rw [grown_level grown member (child_ascends shaped known above child), grown_level grown known above]
  deepest := by
    obtain ⟨above, n, member, same⟩ := depth_greatest grown
    exact ⟨above, ⟨n, member, same⟩, same ▸ grown_shallow grown member⟩
  leaves := ⟨fun _ => leaf_primitive grown, by rw [SchemaTree.leaves, preorder_trunk grown]⟩
  sized _ := grown_sized grown
  named _ _ := node_named_iff grown
  unknown s := by
    unfold node?
    simp [List.find?_eq_none]

theorem grown_of_build {limits : Limits} {ds : List Descriptor} {t : SchemaTree}
    (built : build limits ds = .ok (.built t)) :
    ∃ root order w places, Grown limits (ds.map normal) root order w places t := by
  rcases build_outcome limits ds with ⟨s, root, order, w, places, grew, grown⟩ |
    ⟨_, ⟨p, rest, rejected⟩ | ⟨p, _, _, failed⟩⟩
  · obtain rfl := Outcome.built.inj (Except.ok.inj (grew.symm.trans built))
    exact ⟨root, order, w, places, grown⟩
  · cases rejected.symm.trans built
  · cases failed.symm.trans built

/-- Whatever tree building returns is well built. -/
theorem build_well_built {limits : Limits} {ds : List Descriptor} {t : SchemaTree}
    (built : build limits ds = .ok (.built t)) : WellBuilt limits ds t := by
  obtain ⟨root, order, w, places, grown⟩ := grown_of_build built
  exact grown_well_built grown

/-- A device with an array of samples and a reading, listed in no particular order. -/
def device : List Descriptor :=
  [{ name := "reading", type := "double", parent := "device" },
    { name := "device", type := " Object", children := some ["samples", "reading"] },
    { name := "sample", type := "int", parent := "samples" },
    { name := "samples", type := "array", parent := "device", children := some ["sample"], size := 3 }]

theorem device_built : ∃ t, build {} device = .ok (.built t) := built_of_tree (by decide +kernel)

theorem device_well_built : ∃ t, build {} device = .ok (.built t) ∧ WellBuilt {} device t := by
  obtain ⟨t, built⟩ := device_built
  exact ⟨t, built, build_well_built built⟩

/-- A tree that building returned. -/
def Built (t : SchemaTree) : Prop := ∃ limits ds, build limits ds = .ok (.built t)

namespace Built

variable (built : t.Built)
include built

theorem grown : ∃ limits ds root order w places, Grown limits ds root order w places t := by
  obtain ⟨limits, ds, ran⟩ := built
  exact ⟨limits, ds.map normal, grown_of_build ran⟩

theorem shaped : TreeShaped t.nodes t.root.index := by
  obtain ⟨_, _, _, _, _, _, grown⟩ := built.grown
  exact (grown_root grown).2 ▸ grown_shaped grown

theorem mem_preorder : n ∈ t.preorder ↔ n ∈ t.nodes := by
  obtain ⟨_, _, _, _, _, _, grown⟩ := built.grown
  exact SchemaTree.mem_preorder grown

theorem preorder_nodup : t.preorder.Nodup := by
  obtain ⟨_, _, _, _, _, _, grown⟩ := built.grown
  exact SchemaTree.preorder_nodup grown

theorem preorder_trunk : t.preorder = t.trunk.preorder := by
  obtain ⟨_, _, _, _, _, _, grown⟩ := built.grown
  exact SchemaTree.preorder_trunk grown

theorem names : (t.nodes.map (·.name)).Nodup := by
  obtain ⟨_, _, _, _, _, _, grown⟩ := built.grown
  exact grown_distinct grown

/-- A node is told by its name. -/
theorem eq_of_name (one : n ∈ t.nodes) (other : m ∈ t.nodes) (same : n.name = m.name) : n = m :=
  List.inj_on_of_nodup_map built.names one other same

theorem node_named (known : n ∈ t.nodes) : t.node? n.name = some n := by
  obtain ⟨_, _, _, _, _, _, grown⟩ := built.grown
  exact (node_named_iff grown).mpr ⟨known, rfl⟩

theorem root_member : t.root ∈ t.nodes := by
  obtain ⟨_, _, _, _, _, _, grown⟩ := built.grown
  exact (grown_root grown).1

theorem branch_eq (member : n ∈ t.nodes) : t.branch n = .mk n ((childNodes t.nodes n).map t.branch) :=
  whole_eq built.shaped member

/-- The nodes of a branch come in the preorder of the tree, though not all of the tree's. -/
theorem branch_sublist (member : n ∈ t.nodes) : (t.branch n).preorder.Sublist t.preorder := by
  have shaped := built.shaped
  obtain ⟨k, above⟩ := shaped.tree.ascends n.index (by simpa using shaped.index_inside member)
  generalize position : n.index = p at above
  induction above generalizing n with
  | root =>
    obtain rfl := shaped.eq_of_index member built.root_member position
    rw [built.preorder_trunk]
    rfl
  | @parent k p x named above ih =>
    subst position
    rw [parentAt_links (shaped.at_index member)] at named
    rcases shaped.parent_cases member with ⟨alone, _⟩ | ⟨m, known, naming, _, child⟩
    · simp [alone] at named
    · have upper := ih known (Option.some.inj (naming.symm.trans named))
      have below : t.branch n ∈ (t.branch m).children := by
        rw [built.branch_eq known]
        exact List.mem_map_of_mem child
      rw [preorder_eq] at upper
      exact ((child_sublist below).cons _).trans upper

/-- Names tell the nodes of a branch apart. -/
theorem branch_distinct (member : n ∈ t.nodes) : (t.branch n).Distinct := by
  have listed := (built.branch_sublist member).map (·.name)
  apply List.Nodup.sublist listed
  have perm : t.preorder.Perm t.nodes :=
    (List.perm_ext_iff_of_nodup built.preorder_nodup built.shaped.nodes_nodup).mpr fun _ => built.mem_preorder
  exact (perm.map _).nodup_iff.mpr built.names

end Built

end PayloadSchema.SchemaTree
