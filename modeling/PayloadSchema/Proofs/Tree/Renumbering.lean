import PayloadSchema.Conformance.Schema
import PayloadSchema.Matching.LeafPath
import PayloadSchema.Proofs.Conformance.Examples
import PayloadSchema.Proofs.Tree.Addresses
import PayloadSchema.Tree.Example

/-! Trees that differ in nothing but the positions of their nodes. Wherever a position leads in one of them, the
changed position leads to the node with its positions changed in the other. So the branches are the same up to
positions, and what is computed without showing positions is the same altogether. -/
namespace PayloadSchema

/-- The node with every position in it changed. -/
def Node.renumbered (σ : Position → Position) (n : Node) : Node :=
  { n with parent := n.parent.map σ, children := n.children.map σ, index := σ n.index }

namespace Branch

mutual

/-- The branch with every node changed. -/
def map (f : Node → Node) : Branch → Branch
  | mk n bs => mk (f n) (mapAll f bs)
termination_by structural b => b

def mapAll (f : Node → Node) : List Branch → List Branch
  | [] => []
  | b :: rest => map f b :: mapAll f rest
termination_by structural bs => bs

end

variable {f : Node → Node} {σ : Position → Position}

theorem mapAll_eq (f : Node → Node) (bs : List Branch) : mapAll f bs = bs.map (map f) := by
  induction bs with
  | nil => rfl
  | cons b rest ih => rw [mapAll, ih, List.map_cons]

theorem map_mk (f : Node → Node) (n : Node) (bs : List Branch) : (mk n bs).map f = mk (f n) (bs.map (map f)) := by
  rw [map, mapAll_eq]

@[simp] theorem map_node (b : Branch) : (b.map f).node = f b.node := by
  cases b
  rfl

@[simp] theorem map_children (b : Branch) : (b.map f).children = b.children.map (map f) := by
  cases b with
  | mk n bs => exact mapAll_eq f bs

theorem preorder_map (b : Branch) : (b.map f).preorder = b.preorder.map f := by
  induction b using Branch.induction with
  | mk n bs ih =>
    rw [map_mk, preorder_mk, preorder_mk, List.map_cons, List.flatMap_map, List.map_flatMap]
    exact congrArg (f n :: ·) (List.flatMap_congr ih)

/-- The branch with all positions changed. -/
abbrev renumbered (σ : Position → Position) : Branch → Branch := map (·.renumbered σ)

@[simp] theorem renumbered_name (b : Branch) : (b.renumbered σ).name = b.name := by
  cases b
  rfl

@[simp] theorem renumbered_kind (b : Branch) : (b.renumbered σ).kind = b.kind := by
  cases b
  rfl

theorem exampleMembers_renumbered {bs : List Branch}
    (each : ∀ b ∈ bs, (b.renumbered σ).exampleValue = b.exampleValue) :
    exampleMembers (bs.map (renumbered σ)) = exampleMembers bs := by
  rw [SchemaTree.exampleMembers_eq, SchemaTree.exampleMembers_eq, List.map_map]
  exact List.map_congr_left fun b member => Prod.ext (renumbered_name b) (each b member)

/-- Examples show no positions. -/
theorem exampleValue_renumbered (b : Branch) : (b.renumbered σ).exampleValue = b.exampleValue := by
  induction b using Branch.induction with
  | mk n bs ih =>
    have items : ∀ copies, exampleItems copies (bs.map (renumbered σ)) = exampleItems copies bs := by
      cases bs with
      | nil => exact fun _ => rfl
      | cons b rest => exact fun copies => congrArg (List.replicate copies) (ih b List.mem_cons_self)
    rw [renumbered, map_mk, exampleValue, exampleValue, exampleMembers_renumbered ih, items]
    rfl

/-- Schemas show no positions. -/
theorem keywordsOf_renumbered (b : Branch) : Schema.keywordsOf (b.renumbered σ) = Schema.keywordsOf b := by
  induction b using Branch.induction with
  | mk n bs ih =>
    have members : Schema.membersOf (bs.map (renumbered σ)) = Schema.membersOf bs := by
      induction bs with
      | nil => rfl
      | cons b rest further =>
        obtain ⟨here, others⟩ := List.forall_mem_cons.mp ih
        rw [List.map_cons, Schema.membersOf, Schema.membersOf, renumbered_name, here, further others]
    have element : Schema.elementOf (bs.map (renumbered σ)) = Schema.elementOf bs := by
      cases bs with
      | nil => rfl
      | cons b rest => rw [List.map_cons, Schema.elementOf, Schema.elementOf, ih b List.mem_cons_self]
    have names : (bs.map (renumbered σ)).map (·.name) = bs.map (·.name) := by
      rw [List.map_map]
      exact List.map_congr_left fun b _ => renumbered_name b
    rw [renumbered, map_mk, Schema.keywordsOf, Schema.keywordsOf, members, element, names]
    rfl

end Branch

namespace SchemaTree
open Arena

/-- What a node and its tree show of it, without any position. -/
structure Profile where
  name : Text
  kind : NodeType
  size : Int
  unit : Text
  /-- The name of the parent; the root has none. -/
  parent : Option Text
  /-- The names of the children, in order. -/
  children : List Text
  path : Option Path
  depth : Nat
deriving DecidableEq, Repr

def profile (t : SchemaTree) (n : Node) : Except OutOfRange Profile := do
  let parent ← n.parentIn t.nodes
  let children ← n.childrenIn t.nodes
  return { name := n.name, kind := n.kind, size := n.size, unit := n.unit, parent := parent.map (·.name)
           children := children.map (·.name), path := n.path, depth := n.depth }

/-- One tree is the other with its positions changed. -/
structure Renumbers (σ : Position → Position) (t u : SchemaTree) : Prop where
  nodes : u.nodes.Perm (t.nodes.map (·.renumbered σ))
  root : u.root = t.root.renumbered σ
  descriptors : u.descriptors.Perm t.descriptors
  limits : u.limits = t.limits

namespace Renumbers

variable {σ : Position → Position} {t u : SchemaTree} {n m : Node} (re : Renumbers σ t u)
include re

theorem member (known : n ∈ t.nodes) : n.renumbered σ ∈ u.nodes := re.nodes.mem_iff.mpr (List.mem_map_of_mem known)

theorem size : u.nodes.length = t.nodes.length := by rw [re.nodes.length_eq, List.length_map]

variable (builtT : t.Built) (builtU : u.Built)
include builtT builtU

/-- Different positions stay different. -/
theorem apart (one : n ∈ t.nodes) (other : m ∈ t.nodes) (same : σ n.index = σ m.index) : n = m := by
  have equal := builtU.shaped.eq_of_index (re.member one) (re.member other) same
  have names : (n.renumbered σ).name = (m.renumbered σ).name := congrArg Node.name equal
  exact builtT.eq_of_name one other names

/-- A changed position leads to the changed node. -/
theorem nodeAt? {p : Position} (inside : Inside t.nodes.length p) :
    Arena.nodeAt? u.nodes (σ p) = (Arena.nodeAt? t.nodes p).map (·.renumbered σ) := by
  obtain ⟨n, known, rfl, found⟩ := builtT.shaped.node_at inside
  rw [found]
  exact builtU.shaped.at_index (re.member known)

theorem childNodes (known : n ∈ t.nodes) :
    Arena.childNodes u.nodes (n.renumbered σ) = (Arena.childNodes t.nodes n).map (·.renumbered σ) := by
  have inside := fun p => builtT.shaped.children_inside known (c := p)
  simp only [Arena.childNodes, Node.renumbered, List.filterMap_map, List.map_filterMap]
  exact List.filterMap_congr fun p listed => re.nodeAt? builtT builtU (inside p listed)

theorem childrenIn (known : n ∈ t.nodes) :
    (n.renumbered σ).childrenIn u.nodes = (n.childrenIn t.nodes).map (·.map (·.renumbered σ)) := by
  rw [builtT.shaped.childrenIn_eq known, builtU.shaped.childrenIn_eq (re.member known),
    re.childNodes builtT builtU known]
  rfl

theorem parentIn (known : n ∈ t.nodes) :
    (n.renumbered σ).parentIn u.nodes = (n.parentIn t.nodes).map (·.map (·.renumbered σ)) := by
  rcases builtT.shaped.parent_cases known with ⟨alone, _⟩ | ⟨m, above, named, found, _⟩
  · simp [Node.parentIn, Node.renumbered, alone, Except.map]
  · have standing := nodeAt_eq_ok_iff.mpr (builtU.shaped.at_index (re.member above))
    rw [found, Node.parentIn]
    simp only [Node.renumbered, named, Option.map_some, Except.map] at standing ⊢
    rw [standing]

theorem climb (levels : Nat) (known : n ∈ t.nodes) :
    (n.renumbered σ).climb u.nodes levels = (n.climb t.nodes levels).map (·.map (·.renumbered σ)) := by
  induction levels generalizing n with
  | zero => rfl
  | succ levels ih =>
    rw [Node.climb, Node.climb, re.parentIn builtT builtU known]
    rcases builtT.shaped.parent_cases known with ⟨alone, _⟩ | ⟨m, above, _, found, _⟩
    · simp [Node.parentIn, alone, Except.map, Bind.bind, Except.bind, Pure.pure, Except.pure]
    · have further := ih above
      simp only [found, Except.map, Option.map_some, Bind.bind, Except.bind] at further ⊢
      rw [further]
      cases m.climb t.nodes levels <;> rfl

theorem branch (known : n ∈ t.nodes) : u.branch (n.renumbered σ) = (t.branch n).renumbered σ := by
  refine builtT.upward (P := fun n => u.branch (n.renumbered σ) = (t.branch n).renumbered σ) ?_ n known
  intro n known below
  rw [builtU.branch_eq (re.member known), builtT.branch_eq known, Branch.renumbered, Branch.map_mk,
    re.childNodes builtT builtU known, List.map_map, List.map_map]
  exact congrArg (Branch.mk _) (List.map_congr_left below)

theorem trunk : u.trunk = t.trunk.renumbered σ := by
  rw [SchemaTree.trunk, re.root]
  exact re.branch builtT builtU builtT.root_member

theorem preorder : u.preorder = t.preorder.map (·.renumbered σ) := by
  rw [builtU.preorder_trunk, builtT.preorder_trunk, re.trunk builtT builtU, Branch.preorder_map]

theorem leaves : u.leaves = t.leaves.map (·.renumbered σ) := by
  rw [SchemaTree.leaves, SchemaTree.leaves, re.preorder builtT builtU, List.filter_map]
  refine congrArg (List.map _) (List.filter_congr fun n _ => ?_)
  simp [Node.isLeaf, Node.renumbered]

/-- A node and its changed self show the same. -/
theorem profile (known : n ∈ t.nodes) : u.profile (n.renumbered σ) = t.profile n := by
  rw [SchemaTree.profile, SchemaTree.profile, re.parentIn builtT builtU known, re.childrenIn builtT builtU known]
  cases n.parentIn t.nodes with
  | error _ => rfl
  | ok parent =>
    cases n.childrenIn t.nodes with
    | error _ => rfl
    | ok children =>
      simp only [Except.map, Bind.bind, Except.bind, Pure.pure, Except.pure, List.map_map, Option.map_map]
      rfl

theorem profiles {ns : List Node} (known : ∀ n ∈ ns, n ∈ t.nodes) :
    (ns.map (·.renumbered σ)).mapM u.profile = ns.mapM t.profile := by
  induction ns with
  | nil => rfl
  | cons n rest ih =>
    obtain ⟨here, others⟩ := List.forall_mem_cons.mp known
    rw [List.map_cons, List.mapM_cons, List.mapM_cons, re.profile builtT builtU here, ih others]

theorem paths : u.paths = t.paths := by
  have entries : u.paths.entries = t.paths.entries := by
    rw [builtU.paths_eq, builtT.paths_eq, re.preorder builtT builtU, List.map_map]
    rfl
  exact congrArg PathIndex.mk entries

theorem exampleDocument : u.exampleDocument = t.exampleDocument := by
  rw [SchemaTree.exampleDocument, SchemaTree.exampleDocument, re.trunk builtT builtU, Branch.map_children,
    Branch.exampleMembers_renumbered fun b _ => Branch.exampleValue_renumbered b]

theorem schema : u.schema = t.schema := by
  rw [SchemaTree.schema, SchemaTree.schema, re.trunk builtT builtU, Branch.keywordsOf_renumbered, re.root]
  rfl

theorem listing : u.listing = t.listing := by
  rw [SchemaTree.listing, SchemaTree.listing, re.preorder builtT builtU, List.flatMap_map]
  rfl

theorem arraysAbove (known : n ∈ t.nodes) : u.arraysAbove (n.renumbered σ) = t.arraysAbove n := by
  rw [SchemaTree.arraysAbove, SchemaTree.arraysAbove, Node.ancestorsIn, Node.ancestorsIn, re.size,
    re.climb builtT builtU _ known]
  cases n.climb t.nodes t.nodes.length with
  | error _ => rfl
  | ok chain =>
    simp only [Except.map, arrayCount, List.countP_cons, List.countP_map]
    rfl

theorem leafPathsFor (pattern : Branch) : u.leafPathsFor pattern = t.leafPathsFor pattern := by
  rw [SchemaTree.leafPathsFor, SchemaTree.leafPathsFor]
  cases pattern.spine.getLast? with
  | none => rfl
  | some last =>
    simp only [re.leaves builtT builtU, List.filter_map, List.map_map]
    have same : ∀ n ∈ t.leaves, (n.renumbered σ).kind = n.kind ∧ u.arraysAbove (n.renumbered σ) = t.arraysAbove n :=
      fun n leaf => ⟨rfl, re.arraysAbove builtT builtU (builtT.mem_preorder.mp (List.mem_filter.mp leaf).1)⟩
    refine congrArg (List.map _) (List.filter_congr fun n leaf => ?_)
    rw [Function.comp_apply, (same n leaf).1, (same n leaf).2]

end Renumbers

/-- The nodes that a built tree lists show themselves. -/
theorem Built.profile_ok {t : SchemaTree} (built : t.Built) {n : Node} (known : n ∈ t.nodes) :
    ∃ shown, t.profile n = .ok shown := by
  rw [profile, built.shaped.childrenIn_eq known]
  rcases built.shaped.parent_cases known with ⟨alone, _⟩ | ⟨m, _, _, found, _⟩
  · rw [Node.parentIn, alone]
    exact ⟨_, rfl⟩
  · rw [found]
    exact ⟨_, rfl⟩

end SchemaTree

end PayloadSchema
