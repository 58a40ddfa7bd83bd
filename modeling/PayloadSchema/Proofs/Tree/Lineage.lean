import PayloadSchema.Proofs.Path.Reading
import PayloadSchema.Proofs.Tree.Structure

/-! Parents and children in built trees. What holds of the root and passes from parents to children holds of every
node, and so does what passes from children to parents. The type of a node says what children it has, and its path is
the path of its parent and one segment. -/
namespace PayloadSchema

/-- The segment that leads to a child, given the type of the parent and the name of the child. -/
def Segment.below (kind : NodeType) (name : Text) : Segment := if kind = .array then .each else .field name

/-- The segments of a node's path; none until the node is placed. -/
def Node.segments (n : Node) : List Segment := (n.path.getD {}).segments

namespace SchemaTree
open Arena Descriptor Linking Place Branch

variable {limits : Limits} {ds : List Descriptor} {root : Nat} {order : List Position} {w : Walk}
  {places : List (Position × Place)} {t : SchemaTree} {n m : Node}

theorem grown_stands (grown : Grown limits ds root order w places t) (member : n ∈ t.nodes) :
    ∃ place, n.path = some place.path ∧ Stands (linkedNodes ds) n.index place ∧
      ∃ linked, nodeAt? (linkedNodes ds) n.index = some linked ∧ linked.toLinks = n.toLinks ∧ linked.kind = n.kind ∧
        linked.name = n.name := by
  obtain ⟨i, d, place, found, at_i, stands, same⟩ := grown_node grown member
  have standing : nodeAt? (linkedNodes ds) i = some (linkedNode (ds.map (·.name)) i d) := by
    rw [nodeAt?_natCast, linked_at found]
  rw [at_i]
  exact ⟨place, by simp only [same], stands, _, standing, by simp only [same], by simp only [same],
    by simp only [same, Node.name]⟩

theorem grown_root_path (grown : Grown limits ds root order w places t) : t.root.path = some {} := by
  obtain ⟨member, _⟩ := grown_root grown
  obtain ⟨place, placed, stands, linked, found, links, _⟩ := grown_stands grown member
  have parentless : linked.parent = none := by rw [links, (grown_parentless grown member).mpr rfl]
  rw [placed, stands_unique stands (.top found parentless)]
  rfl

theorem grown_child_path (grown : Grown limits ds root order w places t) (member : n ∈ t.nodes)
    (child : m ∈ childNodes t.nodes n) :
    ∃ path, n.path = some path ∧ m.path = some ⟨path.segments ++ [.below n.kind m.name]⟩ := by
  obtain ⟨known, named⟩ := ((grown_shaped grown).mem_childNodes member).mp child
  obtain ⟨place, placed, stands, linked, above, _, kind, _⟩ := grown_stands grown member
  obtain ⟨lower, below, lowerStands, lowerLinked, found, links, _, name⟩ := grown_stands grown known
  have step : lowerLinked.parent = some n.index := by rw [links, named]
  refine ⟨place.path, placed, ?_⟩
  rw [below, stands_unique lowerStands (.child found step above stands), kind, name]
  by_cases array : n.kind = .array <;> simp [Place.below, Segment.below, Path.element, Path.child, array]

namespace Built

variable (built : t.Built)
include built

theorem root_or_child (member : n ∈ t.nodes) : n = t.root ∨ ∃ p ∈ t.nodes, n ∈ childNodes t.nodes p := by
  rcases built.shaped.parent_cases member with ⟨_, at_root⟩ | ⟨p, known, _, _, child⟩
  · exact .inl (built.shaped.eq_of_index member built.root_member at_root)
  · exact .inr ⟨p, known, child⟩

theorem mem_childNodes (member : n ∈ t.nodes) :
    m ∈ childNodes t.nodes n ↔ m ∈ t.nodes ∧ m.parentIn t.nodes = .ok (some n) := by
  obtain ⟨_, _, _, _, _, _, grown⟩ := built.grown
  rw [built.shaped.mem_childNodes member]
  refine and_congr_right fun known => ?_
  rw [parentIn_eq_some_iff grown known, and_iff_right member]

theorem preorder_perm : t.preorder.Perm t.nodes :=
  (List.perm_ext_iff_of_nodup built.preorder_nodup built.shaped.nodes_nodup).mpr fun _ => built.mem_preorder

/-- What holds of the root and passes from parents to children holds of every node. -/
theorem downward {P : Node → Prop} (root : P t.root)
    (step : ∀ n ∈ t.nodes, ∀ m ∈ childNodes t.nodes n, P n → P m) : ∀ n ∈ t.nodes, P n := by
  intro n member
  have shaped := built.shaped
  obtain ⟨k, above⟩ := shaped.tree.ascends n.index (by simpa using shaped.index_inside member)
  generalize position : n.index = p at above
  induction above generalizing n with
  | root =>
    obtain rfl := shaped.eq_of_index member built.root_member position
    exact root
  | @parent k p x named above ih =>
    subst position
    rw [parentAt_links (shaped.at_index member)] at named
    rcases shaped.parent_cases member with ⟨alone, _⟩ | ⟨m, known, naming, _, child⟩
    · simp [alone] at named
    · exact step m known n child (ih m known (Option.some.inj (naming.symm.trans named)))

/-- What holds of a node whenever it holds of its children holds of every node. -/
theorem upward {P : Node → Prop} (step : ∀ n ∈ t.nodes, (∀ m ∈ childNodes t.nodes n, P m) → P n) :
    ∀ n ∈ t.nodes, P n := by
  intro n member
  generalize whole : t.branch n = b
  induction b using Branch.induction generalizing n with
  | mk k bs ih =>
    refine step n member fun m child => ih (t.branch m) ?_ m (built.shaped.child_member member child) rfl
    have below := built.branch_eq member
    rw [whole, Branch.mk.injEq] at below
    exact below.2 ▸ List.mem_map_of_mem child

theorem childNames (member : n ∈ t.nodes) : (childNodes t.nodes n).map (·.name) = n.descriptor.childNames := by
  obtain ⟨_, _, _, _, _, _, grown⟩ := built.grown
  exact grown_children grown member

theorem childNames_nodup (member : n ∈ t.nodes) : ((childNodes t.nodes n).map (·.name)).Nodup := by
  have known : ∀ m ∈ childNodes t.nodes n, m ∈ t.nodes := fun m => built.shaped.child_member member
  refine (built.shaped.childNodes_nodup member).map_on fun m child e sibling same => ?_
  exact built.eq_of_name (known m child) (known e sibling) same

/-- The children of a node are the nodes that its descriptor lists. -/
theorem listed_iff (known : n ∈ t.nodes) (other : m ∈ t.nodes) :
    m ∈ childNodes t.nodes n ↔ m.name ∈ n.descriptor.childNames := by
  rw [← built.childNames known, List.mem_map]
  constructor
  · exact fun child => ⟨m, child, rfl⟩
  · rintro ⟨e, child, same⟩
    rwa [← built.eq_of_name (built.shaped.child_member known child) other same]

theorem branch_name (member : n ∈ t.nodes) : (t.branch n).name = n.name := by
  rw [built.branch_eq member]
  rfl

/-- The branches below a node have the names of its children. -/
theorem branchNames (member : n ∈ t.nodes) :
    ((childNodes t.nodes n).map t.branch).map (·.name) = n.descriptor.childNames := by
  rw [← built.childNames member, List.map_map]
  exact List.map_congr_left fun m child => built.branch_name (built.shaped.child_member member child)

/-- Nothing hangs at a primitive node. -/
theorem childless (member : n ∈ t.nodes) (primitive : n.kind.isPrimitive) : childNodes t.nodes n = [] := by
  obtain ⟨_, _, _, _, _, _, grown⟩ := built.grown
  have leaf : n.isLeaf := (leaf_primitive grown member).trans primitive
  rw [childNodes, List.isEmpty_iff.mp leaf, List.filterMap_nil]

theorem leaf_primitive (leaf : n ∈ t.leaves) : n.kind.isPrimitive := by
  obtain ⟨_, _, _, _, _, _, grown⟩ := built.grown
  obtain ⟨listed, barren⟩ := List.mem_filter.mp leaf
  exact (SchemaTree.leaf_primitive grown (built.mem_preorder.mp listed)).symm.trans barren

/-- A single child, the element, hangs at an array. -/
theorem element (member : n ∈ t.nodes) (array : n.kind = .array) : ∃ m, childNodes t.nodes n = [m] := by
  obtain ⟨_, _, _, _, _, _, grown⟩ := built.grown
  have shaped := (grown_kind grown member).2.2
  rw [array, Shaped, ← built.childNames member, List.length_map] at shaped
  exact List.length_eq_one_iff.mp shaped.1

/-- Only objects and arrays have children. -/
theorem parent_kind (member : n ∈ t.nodes) (child : m ∈ childNodes t.nodes n) : n.kind = .object ∨ n.kind = .array := by
  by_contra other
  have primitive : n.kind.isPrimitive := by simpa [NodeType.isPrimitive, not_or] using other
  rw [built.childless member primitive] at child
  cases child

theorem named (member : n ∈ t.nodes) : n.name ≠ [] := by
  obtain ⟨_, _, _, _, _, _, grown⟩ := built.grown
  exact grown.forms.named _ (grown_kind grown member).1

/-! ### Paths -/

theorem root_segments : t.root.segments = [] := by
  obtain ⟨_, _, _, _, _, _, grown⟩ := built.grown
  rw [Node.segments, grown_root_path grown]
  rfl

/-- One segment leads from a node to its child. -/
theorem child_segments (member : n ∈ t.nodes) (child : m ∈ childNodes t.nodes n) :
    m.segments = n.segments ++ [.below n.kind m.name] := by
  obtain ⟨_, _, _, _, _, _, grown⟩ := built.grown
  obtain ⟨path, above, below⟩ := grown_child_path grown member child
  rw [Node.segments, Node.segments, above, below]
  rfl

theorem child_segments_ne_nil (member : n ∈ t.nodes) (child : m ∈ childNodes t.nodes n) : m.segments ≠ [] := by
  rw [built.child_segments member child]
  exact List.append_ne_nil_of_right_ne_nil _ (List.cons_ne_nil _ _)

theorem root_no_child (member : n ∈ t.nodes) : t.root ∉ childNodes t.nodes n := fun child =>
  built.child_segments_ne_nil member child built.root_segments

theorem root_parent : t.root.parent = none := by
  rcases built.shaped.parent_cases built.root_member with ⟨alone, _⟩ | ⟨p, known, _, _, child⟩
  · exact alone
  · exact absurd child (built.root_no_child known)

theorem no_own_child (member : n ∈ t.nodes) : n ∉ childNodes t.nodes n := fun child =>
  List.cons_ne_nil _ _ (List.append_right_eq_self.mp (built.child_segments member child).symm)

theorem path_eq (member : n ∈ t.nodes) : n.path = some ⟨n.segments⟩ := by
  obtain ⟨_, _, _, _, _, _, grown⟩ := built.grown
  obtain ⟨place, placed, _⟩ := grown_stands grown member
  rw [Node.segments, placed]
  rfl

theorem pathText_eq (member : n ∈ t.nodes) : n.pathText = (Path.mk n.segments).text := by
  rw [Node.pathText, built.path_eq member]

theorem segments_named : ∀ n ∈ t.nodes, Path.Named n.segments := by
  refine built.downward ?_ fun n member m child above => ?_
  · rw [built.root_segments]
    exact fun _ none => nomatch none
  · rw [built.child_segments member child]
    refine List.forall_mem_append.mpr ⟨above, List.forall_mem_singleton.mpr ?_⟩
    unfold Segment.below
    split
    · trivial
    · exact built.named (built.shaped.child_member member child)

theorem segments_symbolic : ∀ n ∈ t.nodes, Path.Symbolic n.segments := by
  refine built.downward ?_ fun n member m child above i => ?_
  · rw [built.root_segments]
    exact fun _ none => nomatch none
  · rw [built.child_segments member child, List.mem_append, not_or, List.mem_singleton]
    refine ⟨above i, fun chosen => ?_⟩
    unfold Segment.below at chosen
    split at chosen <;> cases chosen

/-- Below one node, segments tell the children apart. -/
theorem below_injective {e : Node} (member : n ∈ t.nodes) (child : m ∈ childNodes t.nodes n)
    (sibling : e ∈ childNodes t.nodes n) (same : Segment.below n.kind m.name = Segment.below n.kind e.name) : m = e := by
  by_cases array : n.kind = .array
  · obtain ⟨only, alone⟩ := built.element member array
    rw [alone, List.mem_singleton] at child sibling
    rw [child, sibling]
  · have names : m.name = e.name := by simpa [Segment.below, array] using same
    exact built.eq_of_name (built.shaped.child_member member child) (built.shaped.child_member member sibling) names

/-- A node is told by its path. -/
theorem segments_injective : ∀ n ∈ t.nodes, ∀ m ∈ t.nodes, m.segments = n.segments → m = n := by
  refine built.downward (fun m known same => ?_) fun n member e child above m known same => ?_
  · rcases built.root_or_child known with root | ⟨p, parent, below⟩
    · exact root
    · exact absurd (same.trans built.root_segments) (built.child_segments_ne_nil parent below)
  · rcases built.root_or_child known with rfl | ⟨p, parent, below⟩
    · exact absurd (same.symm.trans built.root_segments) (built.child_segments_ne_nil member child)
    · rw [built.child_segments member child, built.child_segments parent below] at same
      obtain ⟨parents, steps⟩ := List.append_inj' same rfl
      obtain rfl := above p parent parents
      exact built.below_injective member below child (List.singleton_inj.mp steps)

end Built

end SchemaTree

end PayloadSchema
