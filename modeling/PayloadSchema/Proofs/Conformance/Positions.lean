import PayloadSchema.Proofs.Conformance.Faults
import PayloadSchema.Proofs.Json.Keyed
import PayloadSchema.Proofs.Tree.Lineage

/-! Positions of nodes in documents. A node below an object stands at the member of its name and the node below an array
at every element. In a conforming document what stands at a node's positions conforms to its branch, and a position
belongs to one node only. -/
namespace PayloadSchema

/-- The segment of a path that leads to a spot. -/
def Spot.segment : Spot → Segment
  | member name => .field name
  | item _ => .each

namespace SchemaTree
open Arena Branch Descriptor

/-- A value of a document stands at a position of a node. -/
inductive Occurs (t : SchemaTree) (d : Json) : Node → List Spot → Json → Prop where
  | root : Occurs t d t.root [] d
  | member {n m : Node} {place : List Spot} {members : List (Text × Json)} {v : Json}
      (above : Occurs t d n place (.obj members)) (kind : n.kind = .object) (known : m ∈ t.nodes)
      (parent : m.parentIn t.nodes = .ok (some n)) (value : (m.name, v) ∈ members) :
      Occurs t d m (place ++ [.member m.name]) v
  | item {n m : Node} {place : List Spot} {items : List Json} {i : Nat} {v : Json}
      (above : Occurs t d n place (.arr items)) (kind : n.kind = .array) (known : m ∈ t.nodes)
      (parent : m.parentIn t.nodes = .ok (some n)) (value : items[i]? = some v) :
      Occurs t d m (place ++ [.item i]) v

variable {t : SchemaTree} {n m : Node} {d v w : Json} {place : List Spot}

namespace Built

variable (built : t.Built)
include built

/-- A position tells the path of its node. -/
theorem occurs_segments (occurs : t.Occurs d n place v) : n ∈ t.nodes ∧ place.map Spot.segment = n.segments := by
  induction occurs with
  | root => exact ⟨built.root_member, built.root_segments.symm⟩
  | @member n m place members v above kind known parent value ih =>
    have child := (built.mem_childNodes ih.1).mpr ⟨known, parent⟩
    refine ⟨known, ?_⟩
    rw [List.map_append, ih.2, built.child_segments ih.1 child, kind]
    rfl
  | @item n m place items i v above kind known parent value ih =>
    have child := (built.mem_childNodes ih.1).mpr ⟨known, parent⟩
    refine ⟨known, ?_⟩
    rw [List.map_append, ih.2, built.child_segments ih.1 child, kind]
    rfl

/-- No two nodes share a position. -/
theorem occurs_unique (one : t.Occurs d n place v) (other : t.Occurs d m place w) : n = m := by
  obtain ⟨known, path⟩ := built.occurs_segments one
  obtain ⟨also, same⟩ := built.occurs_segments other
  exact built.segments_injective m also n known (path.symm.trans same)

theorem conforms_object (member : n ∈ t.nodes) (kind : n.kind = .object) :
    Conforms v (t.branch n) ↔ ∃ members, v = .obj members ∧
      (∀ m ∈ childNodes t.nodes n, ∃ inner, Assoc.get? members m.name = some inner ∧ Conforms inner (t.branch m)) ∧
      ∀ name ∈ members.map Prod.fst, name ∈ n.descriptor.childNames := by
  rw [built.branch_eq member]
  simp only [Conforms, kind, membersConform_iff, List.forall_mem_map, built.branchNames member]
  refine exists_congr fun members => and_congr_right fun _ => and_congr_left fun _ => ?_
  refine forall₂_congr fun m child => ?_
  rw [built.branch_name (built.shaped.child_member member child)]

/-- The members of a conforming object have the names of the children, in an order of their own. -/
theorem member_names (member : n ∈ t.nodes) (kind : n.kind = .object) {members : List (Text × Json)}
    (keyed : (Json.obj members).Keyed) (conforms : Conforms (.obj members) (t.branch n)) :
    n.descriptor.childNames.Perm (members.map Prod.fst) := by
  obtain ⟨_, same, each, only⟩ := (built.conforms_object member kind).mp conforms
  cases same
  have distinct : n.descriptor.childNames.Nodup := built.childNames member ▸ built.childNames_nodup member
  refine (List.perm_ext_iff_of_nodup distinct keyed.distinct).mpr fun name => ⟨fun listed => ?_, only name⟩
  rw [← built.childNames member] at listed
  obtain ⟨m, child, rfl⟩ := List.mem_map.mp listed
  obtain ⟨inner, found, _⟩ := each m child
  exact List.mem_map_of_mem (keyed.get?_iff.mp found)

theorem conforms_array (member : n ∈ t.nodes) (kind : n.kind = .array) :
    Conforms v (t.branch n) ↔ ∃ items m, v = .arr items ∧ childNodes t.nodes n = [m] ∧
      (∀ x ∈ items, Conforms x (t.branch m)) ∧ (items.length : Int) = n.size := by
  obtain ⟨m, only⟩ := built.element member kind
  rw [built.branch_eq member]
  simp only [Conforms, kind, only, List.map_singleton, ItemsConform, List.singleton_inj]
  simp

theorem conforms_leaf (member : n ∈ t.nodes) (primitive : n.kind.isPrimitive) :
    Conforms v (t.branch n) ↔ IsLeaf n.kind v := by
  rw [built.branch_eq member]
  cases kind : n.kind with
  | object | array => simp [kind, NodeType.isPrimitive] at primitive
  | string | double | int | long | decimal128 | boolean | date | binary => simp only [Conforms, kind]

/-- Only what conforms to an object has members, and they are called as its children. -/
theorem conforms_get? (member : n ∈ t.nodes) (conforms : Conforms v (t.branch n)) {name : Text}
    (found : v.get? name = some w) : n.kind = .object ∧ name ∈ n.descriptor.childNames := by
  cases kind : n.kind with
  | object =>
    obtain ⟨members, rfl, _, only⟩ := (built.conforms_object member kind).mp conforms
    have known : name ∈ members.map Prod.fst := Assoc.isSome_get?_iff.mp (Option.isSome_of_mem found)
    exact ⟨rfl, only name known⟩
  | array =>
    obtain ⟨items, _, rfl, _⟩ := (built.conforms_array member kind).mp conforms
    cases found
  | string | double | int | long | decimal128 | boolean | date | binary =>
    have primitive : n.kind.isPrimitive := by
      rw [kind]
      rfl
    have scalar := leaf_scalar primitive ((built.conforms_leaf member primitive).mp conforms)
    cases v with
    | obj _ => exact scalar.elim
    | null | bool _ | int _ | real _ | str _ | arr _ => cases found

/-- What stands at a node's position in a conforming document conforms to the node's branch. -/
theorem occurs_conforms (keyed : d.Keyed) (conforms : Conforms d t.trunk) (occurs : t.Occurs d n place v) :
    v.Keyed ∧ Conforms v (t.branch n) := by
  induction occurs with
  | root => exact ⟨keyed, conforms⟩
  | @member n m place members v above kind known parent value ih =>
    have upper := (built.occurs_segments above).1
    have child := (built.mem_childNodes upper).mpr ⟨known, parent⟩
    obtain ⟨_, same, each, _⟩ := (built.conforms_object upper kind).mp ih.2
    cases same
    obtain ⟨found, there, conforming⟩ := each m child
    obtain rfl := Option.some.inj (there.symm.trans (ih.1.get?_iff.mpr value))
    cases ih.1 with
    | obj _ inner => exact ⟨inner _ value, conforming⟩
  | @item n m place items i v above kind known parent value ih =>
    have upper := (built.occurs_segments above).1
    have child := (built.mem_childNodes upper).mpr ⟨known, parent⟩
    obtain ⟨_, only, same, alone, each, _⟩ := (built.conforms_array upper kind).mp ih.2
    cases same
    rw [alone, List.mem_singleton] at child
    subst child
    cases ih.1 with
    | arr inner => exact ⟨inner v (List.mem_of_getElem? value), each v (List.mem_of_getElem? value)⟩

end Built

end SchemaTree

end PayloadSchema
