import PayloadSchema.Proofs.Conformance.Positions
import PayloadSchema.Proofs.Conformance.Keywords
import PayloadSchema.Proofs.Json.RoundTrip
import PayloadSchema.Tree.Example

/-! Example documents. The example of a tree conforms to it, whatever the nodes are called, and is read back from its
message if no character is split in two in the names of its members; written halves are read as the whole character.
The message conforms in its own right unless the root has a child whose name is that of the wrapper. -/
namespace PayloadSchema

namespace NodeType

variable {kind : NodeType}

/-- The example of a primitive type is a value of the type. -/
theorem example_isLeaf (primitive : kind.isPrimitive) : Branch.IsLeaf kind (kind.example?.getD .null) := by
  have faultless : Branch.leafFaults kind [] (kind.example?.getD .null) = [] := by
    cases kind with
    | object | array => cases primitive
    | string | double | int | long | decimal128 | boolean | date | binary => decide +kernel
  exact Branch.leafFaults_eq_nil_iff.mp faultless

/-- The example of a primitive type is written as one token. -/
theorem example_isToken (primitive : kind.isPrimitive) : Json.IsToken (kind.example?.getD .null) := by
  cases kind with
  | object | array => cases primitive
  | string | date | binary => exact Json.str_isToken (Text.unsplit_ofString _)
  | boolean => exact Json.bool_isToken true
  | int | long => exact Json.int_isToken (by decide +kernel)
  | double => exact Json.real_isToken 24 ['5'] (by decide +kernel) (by decide) (by decide) (by decide +kernel)
  | decimal128 =>
    exact Json.real_isToken 1234 "5678" (by decide +kernel) (by decide) (by decide) (by decide +kernel)

end NodeType

namespace SchemaTree
open Arena Descriptor Branch

/-- Whether the names of members are read as they are written: no character is split in two in the name of a child of
an object. Names without surrogates always are. -/
def Spellable (t : SchemaTree) : Prop :=
  ∀ n ∈ t.nodes, n.kind = .object → ∀ name ∈ n.descriptor.childNames, name.Unsplit

instance (t : SchemaTree) : Decidable t.Spellable :=
  inferInstanceAs (Decidable (∀ n ∈ t.nodes, n.kind = .object → ∀ name ∈ n.descriptor.childNames, name.Unsplit))

variable {V : Validator} {t : SchemaTree} {n m : Node}

theorem exampleMembers_eq (bs : List Branch) : exampleMembers bs = bs.map fun b => (b.name, b.exampleValue) := by
  induction bs with
  | nil => rfl
  | cons b rest ih => rw [exampleMembers, ih, List.map_cons]

namespace Built

variable (built : t.Built)
include built

theorem wellBuilt : ∃ limits ds, WellBuilt limits ds t := by
  obtain ⟨limits, ds, ran⟩ := built
  exact ⟨limits, ds, build_well_built ran⟩

theorem root_depth : t.root.depth = 1 := by
  obtain ⟨_, _, well⟩ := built.wellBuilt
  exact well.rootDepth

theorem depth_child (member : n ∈ t.nodes) (child : m ∈ childNodes t.nodes n) : m.depth = n.depth + 1 := by
  obtain ⟨known, parent⟩ := (built.mem_childNodes member).mp child
  obtain ⟨_, _, well⟩ := built.wellBuilt
  exact well.childDepth m known n parent

theorem depth_le (member : n ∈ t.nodes) : n.depth ≤ t.depth := by
  obtain ⟨_, _, well⟩ := built.wellBuilt
  exact well.deepest.1 n member

/-- Something hangs at an object. -/
theorem object_parent (member : n ∈ t.nodes) (object : n.kind = .object) : childNodes t.nodes n ≠ [] := by
  obtain ⟨_, _, _, _, _, _, grown⟩ := built.grown
  have shaped := (grown_kind grown member).2.2
  rw [object, Shaped, ← built.childNames member] at shaped
  exact fun none => shaped (by rw [none, List.map_nil])

/-- Arrays have at least one element. -/
theorem size_pos (member : n ∈ t.nodes) (array : n.kind = .array) : 0 < n.size := by
  obtain ⟨limits, _, well⟩ := built.wellBuilt
  have sized := well.sized n member
  rw [if_pos array] at sized
  have := limits.one_le_minArraySize
  omega

/-! ### Example values -/

/-- The members of an object's example have the names of the children, in order. -/
theorem example_names (member : n ∈ t.nodes) :
    ((childNodes t.nodes n).map fun m => (m.name, (t.branch m).exampleValue)).map Prod.fst =
      n.descriptor.childNames := by
  rw [List.map_map]
  exact built.childNames member

theorem example_distinct (member : n ∈ t.nodes) :
    (((childNodes t.nodes n).map fun m => (m.name, (t.branch m).exampleValue)).map Prod.fst).Nodup := by
  rw [built.example_names member, ← built.childNames member]
  exact built.childNames_nodup member

/-- The example of an object has a member for each child, in order. -/
theorem example_object (member : n ∈ t.nodes) (kind : n.kind = .object) :
    (t.branch n).exampleValue =
      .obj ((childNodes t.nodes n).map fun m => (m.name, (t.branch m).exampleValue)) := by
  have pairs : exampleMembers ((childNodes t.nodes n).map t.branch) =
      (childNodes t.nodes n).map fun m => (m.name, (t.branch m).exampleValue) := by
    rw [exampleMembers_eq, List.map_map]
    exact List.map_congr_left fun m child => by
      rw [Function.comp_apply, built.branch_name (built.shaped.child_member member child)]
  rw [built.branch_eq member]
  simp only [exampleValue, kind, pairs]
  exact congrArg Json.obj (Assoc.ofPairs_of_distinct (built.example_distinct member))

/-- The example of an array has as many copies of its element's example as the size says. -/
theorem example_array (member : n ∈ t.nodes) (kind : n.kind = .array) (only : childNodes t.nodes n = [m]) :
    (t.branch n).exampleValue = .arr (List.replicate n.size.toNat (t.branch m).exampleValue) := by
  rw [built.branch_eq member, only]
  simp only [exampleValue, kind, List.map_cons, exampleItems]

theorem example_leaf (member : n ∈ t.nodes) (primitive : n.kind.isPrimitive) :
    (t.branch n).exampleValue = n.kind.example?.getD .null := by
  rw [built.branch_eq member]
  cases kind : n.kind with
  | object | array => rw [kind] at primitive; cases primitive
  | string | double | int | long | decimal128 | boolean | date | binary => simp only [exampleValue, kind]

theorem exampleDocument_eq : t.exampleDocument = (t.branch t.root).exampleValue := by
  obtain ⟨_, _, well⟩ := built.wellBuilt
  rw [exampleDocument, trunk, built.branch_eq built.root_member]
  simp only [exampleValue, well.rooted.2.1]
  rfl

/-- The example of every branch conforms to it. -/
theorem example_conforms : ∀ n ∈ t.nodes, Conforms (t.branch n).exampleValue (t.branch n) := by
  refine built.upward fun n member below => ?_
  cases kind : n.kind with
  | object =>
    rw [built.example_object member kind, built.conforms_object member kind]
    refine ⟨_, rfl, fun m child => ⟨(t.branch m).exampleValue, ?_, below m child⟩, fun name listed =>
      built.example_names member ▸ listed⟩
    exact (Assoc.get?_eq_some_iff (built.example_distinct member)).mpr (List.mem_map_of_mem child)
  | array =>
    obtain ⟨m, only⟩ := built.element member kind
    rw [built.example_array member kind only, built.conforms_array member kind]
    refine ⟨_, m, rfl, only, fun x copy => ?_, ?_⟩
    · rw [List.eq_of_mem_replicate copy]
      exact below m (only ▸ List.mem_singleton_self m)
    · have := built.size_pos member kind
      rw [List.length_replicate]
      omega
  | string | double | int | long | decimal128 | boolean | date | binary =>
    have primitive : n.kind.isPrimitive := by rw [kind]; rfl
    rw [built.example_leaf member primitive, built.conforms_leaf member primitive]
    exact NodeType.example_isLeaf primitive

/-- The example of a branch has no more containers inside each other than there are levels from its node on. -/
theorem example_legible (spellable : t.Spellable) :
    ∀ n ∈ t.nodes, Json.Legible (t.depth - n.depth) (t.branch n).exampleValue := by
  refine built.upward fun n member below => ?_
  -- a node with children is not at the last level
  have deeper (m : Node) (child : m ∈ childNodes t.nodes n) : t.depth - n.depth = t.depth - m.depth + 1 := by
    have := built.depth_le (built.shaped.child_member member child)
    have := built.depth_child member child
    omega
  cases kind : n.kind with
  | object =>
    obtain ⟨first, child⟩ := List.exists_mem_of_ne_nil _ (built.object_parent member kind)
    rw [built.example_object member kind, deeper first child]
    refine .obj (built.example_distinct member) (fun entry listed => ?_) fun entry listed => ?_
    · exact spellable n member kind _ (built.example_names member ▸ List.mem_map_of_mem listed)
    · obtain ⟨m, other, rfl⟩ := List.mem_map.mp listed
      have level := (deeper first child).symm.trans (deeper m other)
      exact Nat.add_right_cancel level ▸ below m other
  | array =>
    obtain ⟨m, only⟩ := built.element member kind
    have child : m ∈ childNodes t.nodes n := only ▸ List.mem_singleton_self m
    rw [built.example_array member kind only, deeper m child]
    refine .arr fun v copy => ?_
    rw [List.eq_of_mem_replicate copy]
    exact below m child
  | string | double | int | long | decimal128 | boolean | date | binary =>
    have primitive : n.kind.isPrimitive := by rw [kind]; rfl
    rw [built.example_leaf member primitive]
    exact .token (NodeType.example_isToken primitive)

/-! ### Messages -/

/-- The example document is no message: if its only member is called as the wrapper, so is a child of the root. -/
theorem example_bare : ¬ t.IsMessage t.exampleDocument := by
  obtain ⟨_, _, well⟩ := built.wellBuilt
  rw [built.exampleDocument_eq, built.example_object built.root_member well.rooted.2.1]
  rintro ⟨⟨_, same, keys⟩, free⟩
  cases same
  rw [List.map_map] at keys
  obtain ⟨m, only, named⟩ := List.map_eq_singleton_iff.mp keys
  obtain ⟨known, parent⟩ := (built.mem_childNodes built.root_member).mp (only ▸ List.mem_singleton_self m)
  exact free m known parent named

/-- The containers of the example message are no deeper inside each other than the tree has levels. -/
theorem message_legible (spellable : t.Spellable) : Json.Legible t.depth (.obj [("value", t.exampleDocument)]) := by
  have inside := built.example_legible spellable t.root built.root_member
  have deep := built.depth_le built.root_member
  rw [built.root_depth] at inside deep
  rw [← Nat.sub_add_cancel deep, built.exampleDocument_eq]
  exact .obj (List.nodup_singleton _) (List.forall_mem_singleton.mpr (Text.unsplit_ofString _))
    (List.forall_mem_singleton.mpr inside)

/-- A message is taken for a document where the root has a child called as the wrapper, and what is inside is never of
use to that child. -/
theorem wrapped_document {m : Node} (child : m ∈ childNodes t.nodes t.root) (named : m.name = "value") {d : Json}
    (wrapped : Conforms (.obj [("value", d)]) t.trunk) : ¬ Conforms d t.trunk := by
  obtain ⟨_, _, well⟩ := built.wellBuilt
  intro conforms
  obtain ⟨members, same, each, _⟩ := (built.conforms_object built.root_member well.rooted.2.1).mp wrapped
  cases same
  obtain ⟨inner, found, inside⟩ := each m child
  obtain rfl : d = inner := by simpa [named, Assoc.get?] using found
  -- the document has a member of that name, so the child called so would have itself for a child
  obtain ⟨members, rfl, whole, _⟩ := (built.conforms_object built.root_member well.rooted.2.1).mp conforms
  obtain ⟨again, there, _⟩ := whole m child
  have known := built.shaped.child_member built.root_member child
  have found : (Json.obj members).get? m.name = some again := there
  have listed := (built.conforms_get? known inside found).2
  exact built.no_own_child known ((built.listed_iff known known).mpr listed)

end Built

/-- What makes the example of a tree one that can be relied on. -/
structure ExampleHolds (V : Validator) (t : SchemaTree) : Prop where
  conforms : t.check V t.exampleDocument = []
  /-- Reading the example message gives the document under `value`, member by member and in the same order, to every
  reader that follows the containers as deep as the tree has levels, if the names are read as they are written. -/
  restored : t.Spellable → ∀ limit : Option Nat, (∀ most ∈ limit, t.depth ≤ most) →
    Json.read limit t.exampleMessage = .ok (.obj [("value", t.exampleDocument)])
  message : t.check V (.obj [("value", t.exampleDocument)]) = [] ↔
    ∀ m ∈ t.nodes, m.parentIn t.nodes = .ok (some t.root) → m.name ≠ "value"

/-- The examples of every tree that was built hold, whatever the validator is. -/
theorem example_holds (built : t.Built) (checking : V.Lawful) : ExampleHolds V t := by
  have conforms : Conforms t.exampleDocument t.trunk := by
    rw [built.exampleDocument_eq]
    exact built.example_conforms t.root built.root_member
  refine ⟨?_, fun spellable limit enough => Json.read_write (built.message_legible spellable) enough,
    fun sound m known parent named => ?_, fun free => ?_⟩
  · rw [built.check_document_iff checking built.example_bare]
    exact conforms
  · have child := (built.mem_childNodes built.root_member).mpr ⟨known, parent⟩
    have document : ¬ t.IsMessage (.obj [("value", t.exampleDocument)]) := fun message =>
      message.2 m known parent named
    rw [built.check_document_iff checking document] at sound
    exact built.wrapped_document child named sound conforms
  · have message : t.IsMessage (.obj [("value", t.exampleDocument)]) := ⟨⟨_, rfl, rfl⟩, free⟩
    have wrapped := built.unwrap_message message
    have inner : t.exampleDocument = t.unwrap (.obj [("value", t.exampleDocument)]) := by simpa using wrapped
    rw [built.check_eq_nil_iff checking, ← inner]
    exact conforms

/-- The halves of a character, one after the other. -/
def halves : Text := [.ofNat 0xD83D, .ofNat 0xDE00]

/-- A schema whose names hold quotes, backslashes, control characters, characters beyond sixteen bits and halves of one
in the wrong order. The wrapper's name is taken by a child. -/
def peculiar : List Descriptor :=
  [{ name := "root", type := "object", children := some ["value", "\"\\\n\t", halves.reverse] },
    { name := "value", type := "object", parent := "root", children := some ["𝔘é\x7f"] },
    { name := "𝔘é\x7f", type := "array", parent := "value", children := some ["\x1f/"], size := 2 },
    { name := "\x1f/", type := "decimal128", parent := "𝔘é\x7f" },
    { name := "\"\\\n\t", type := "date", parent := "root" },
    { name := halves.reverse, type := "int", parent := "root" }]

theorem peculiar_example : ∃ (V : Validator) (t : SchemaTree), V.Lawful ∧ t.Built ∧ t.nodes.length = 6 ∧
    ExampleHolds V t ∧ t.Spellable ∧ Json.read none t.exampleMessage = .ok (.obj [("value", t.exampleDocument)]) := by
  obtain ⟨t, ran, computed⟩ := built_with {} peculiar (fun t => (t.nodes.length, decide t.Spellable)) (6, true)
    (by decide +kernel)
  obtain ⟨size, spelled⟩ := Prod.mk.inj computed
  have spellable : t.Spellable := of_decide_eq_true spelled
  have holds := example_holds ⟨_, _, ran⟩ Validator.recursive_lawful
  exact ⟨.recursive, t, Validator.recursive_lawful, ⟨_, _, ran⟩, size, holds, spellable,
    holds.restored spellable none (by simp)⟩

/-- A schema whose only leaf is called by the halves of a character. -/
def divided : List Descriptor :=
  [{ name := "root", type := "object", children := some [halves] },
    { name := halves, type := "double", parent := "root" }]

/-- What is read from the message of this schema has the character for a name, so it is not what was written and does
not conform, whatever the validator is. -/
theorem divided_name_joined : ∃ t : SchemaTree, t.Built ∧ (∀ m ∈ t.nodes, m.name ≠ "value") ∧
    ∃ v, Json.read none t.exampleMessage = .ok v ∧ v ≠ .obj [("value", t.exampleDocument)] ∧
      ∀ V : Validator, V.Lawful → t.check V v ≠ [] := by
  obtain ⟨t, ran, computed⟩ := built_with {} divided
    (fun t => (decide (∀ m ∈ t.nodes, m.name ≠ "value"),
      (t.check .recursive (.obj [("value", t.exampleDocument)])).isEmpty,
      (Json.read none t.exampleMessage).toOption.map fun v => (t.check .recursive v).isEmpty))
    (true, true, some false) (by decide +kernel)
  obtain ⟨free, rest⟩ := Prod.mk.inj computed
  obtain ⟨written, found⟩ := Prod.mk.inj rest
  have written : t.check .recursive (.obj [("value", t.exampleDocument)]) = [] := List.isEmpty_iff.mp written
  obtain ⟨v, read, violated⟩ := Option.map_eq_some_iff.mp found
  have unsound : t.check .recursive v ≠ [] := fun none => by rw [none] at violated; cases violated
  have built : t.Built := ⟨_, _, ran⟩
  refine ⟨t, built, of_decide_eq_true free, v, ok_of_toOption read, fun same => unsound (same ▸ written),
    fun V checking sound => unsound ?_⟩
  rw [built.check_eq Validator.recursive_lawful, ← built.check_eq checking, sound]

end SchemaTree

end PayloadSchema
