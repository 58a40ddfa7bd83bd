import PayloadSchema.Proofs.Tree.Lineage

/-! Addresses of nodes. No two nodes of a tree share a path text, so entering the nodes under their texts overwrites
nothing: the index holds every node once, in the order of the walk, and its array levels are the arrays above it. -/
namespace PayloadSchema

namespace PathIndex

theorem entries_ofPaths (paths : List (Path × NodeType)) :
    (ofPaths paths).entries = Assoc.ofPairs (paths.map fun entry => (entry.1.text, ⟨entry.1.steps, entry.2⟩)) := by
  have entered : ∀ done : PathIndex, (paths.foldl (fun done entry => done.enter entry.1 entry.2) done).entries =
      Assoc.update done.entries (paths.map fun entry => (entry.1.text, ⟨entry.1.steps, entry.2⟩)) := by
    induction paths with
    | nil => exact fun _ => rfl
    | cons entry rest ih => exact fun done => ih (done.enter entry.1 entry.2)
  exact entered {}

end PathIndex

/-- The step that does what a segment says. -/
inductive Compiles : Segment → Step → Prop where
  | field (name : Text) : Compiles (.field name) (.field name)
  | each : Compiles .each .each
  | index (i : Int) : Compiles (.index i) (.index i)

theorem compiles_iff {s : Segment} {step : Step} : Compiles s step ↔ step = .ofSegment s := by
  constructor
  · rintro (_ | _ | _) <;> rfl
  · rintro rfl
    cases s with
    | field name => exact .field name
    | each => exact .each
    | index i => exact .index i

theorem all_compile_iff {segments : List Segment} {steps : List Step} :
    List.Forall₂ Compiles segments steps ↔ steps = segments.map Step.ofSegment := by
  constructor
  · intro related
    induction related with
    | nil => rfl
    | cons first _ ih => rw [compiles_iff.mp first, ih, List.map_cons]
  · rintro rfl
    exact List.forall₂_map_right_iff.mpr (List.forall₂_same.mpr fun s _ => compiles_iff.mpr rfl)

namespace SchemaTree
open Arena Linking Place

variable {limits : Limits} {ds : List Descriptor} {root : Nat} {order : List Position} {w : Walk}
  {places : List (Position × Place)} {t : SchemaTree} {n m : Node}

/-- What the index holds for a node. -/
def addressed (n : Node) : Text × PathEntry :=
  ((Path.mk n.segments).text, ⟨(Path.mk n.segments).steps, n.kind⟩)

/-- The node that stands where a place was found has that place's path. -/
theorem grown_entry (grown : Grown limits ds root order w places t) {entry : Position × Place}
    (listed : entry ∈ places) :
    (nodeAt? (linkedNodes ds) entry.1).map (fun n => (entry.2.path, n.kind)) =
      (nodeAt? t.nodes entry.1).map fun n => (Path.mk n.segments, n.kind) := by
  have ordered : entry.1 ∈ t.order := by
    rw [grown_order grown, ← grown.surveyed.keys]
    exact List.mem_map_of_mem listed
  have distinct : (places.map Prod.fst).Nodup := grown.surveyed.keys ▸ grown.surveyed.distinct
  obtain ⟨n, member, same, found⟩ := (grown_shaped grown).node_at ((grown_inside grown).mp ordered)
  obtain ⟨place, placed, stands, linked, standing, _, kind, _⟩ := grown_stands grown member
  have faithful := grown.surveyed.faithful _ _ ((Assoc.get?_eq_some_iff distinct).mpr listed)
  rw [same] at stands standing
  rw [found, standing, Option.map_some, Option.map_some, kind, Node.segments, placed, stands_unique stands faithful]
  rfl

theorem grown_paths (grown : Grown limits ds root order w places t) :
    t.paths.entries = Assoc.ofPairs (t.preorder.map addressed) := by
  have index : t.paths = indexOf (linkedNodes ds) places := congrArg SchemaTree.paths grown.built
  have found : places.filterMap (fun entry =>
        (nodeAt? (linkedNodes ds) entry.1).map fun n => (entry.2.path, n.kind)) =
      t.preorder.map fun n => (Path.mk n.segments, n.kind) := by
    rw [preorder, grown_order grown, ← grown.surveyed.keys, List.filterMap_map, List.map_filterMap]
    exact List.filterMap_congr fun entry listed => grown_entry grown listed
  rw [index, indexOf, PathIndex.entries_ofPaths, found, List.map_map]
  rfl

namespace Built

variable (built : t.Built)
include built

theorem pathText_injective (one : n ∈ t.nodes) (other : m ∈ t.nodes) (same : n.pathText = m.pathText) : n = m := by
  rw [built.pathText_eq one, built.pathText_eq other] at same
  exact built.segments_injective m other n one
    (Path.text_injective (built.segments_named n one) (built.segments_named m other) same)

theorem addressed_keys : (t.preorder.map addressed).map Prod.fst = t.preorder.map (·.pathText) := by
  rw [List.map_map]
  exact List.map_congr_left fun n listed => (built.pathText_eq (built.mem_preorder.mp listed)).symm

theorem pathTexts_nodup : (t.preorder.map (·.pathText)).Nodup :=
  built.preorder_nodup.map_on fun _ one _ other same =>
    built.pathText_injective (built.mem_preorder.mp one) (built.mem_preorder.mp other) same

/-- The index holds the nodes in the order of the walk. -/
theorem paths_eq : t.paths.entries = t.preorder.map addressed := by
  obtain ⟨_, _, _, _, _, _, grown⟩ := built.grown
  rw [grown_paths grown, Assoc.ofPairs, Assoc.update_of_fresh, List.nil_append]
  rw [List.nil_append, built.addressed_keys]
  exact built.pathTexts_nodup

/-- What is found under a text is what the index holds for the node of that text. -/
theorem lookup_eq_some_iff {text : Text} {entry : PathEntry} :
    t.lookup text = some entry ↔ ∃ n ∈ t.nodes, addressed n = (text, entry) := by
  have distinct : (t.paths.entries.map Prod.fst).Nodup := by
    rw [built.paths_eq, built.addressed_keys]
    exact built.pathTexts_nodup
  rw [lookup, PathIndex.lookup, Assoc.get?_eq_some_iff distinct, built.paths_eq, List.mem_map]
  exact exists_congr fun n => and_congr_left fun _ => built.mem_preorder

theorem lookup_path {n : Node} (member : n ∈ t.nodes) :
    t.lookup n.pathText = some ⟨(Path.mk n.segments).steps, n.kind⟩ :=
  built.lookup_eq_some_iff.mpr ⟨n, member, by rw [addressed, built.pathText_eq member]⟩

theorem lookup_eq_none_iff {text : Text} : t.lookup text = none ↔ ∀ n ∈ t.nodes, n.pathText ≠ text := by
  rw [Option.eq_none_iff_forall_ne_some]
  constructor
  · intro unknown n member same
    exact unknown _ (same ▸ built.lookup_path member)
  · intro apart entry found
    obtain ⟨n, member, same⟩ := built.lookup_eq_some_iff.mp found
    exact apart n member ((built.pathText_eq member).trans (congrArg Prod.fst same))

/-- The array levels of a path are the arrays that its node hangs below. -/
theorem wildcards_of_ancestry {chain : List Node} (member : n ∈ t.nodes) (ancestry : Ancestry t.nodes (n :: chain))
    (top : (n :: chain).getLast? = some t.root) :
    n.segments.countP (· = .each) = chain.countP (·.kind = .array) := by
  induction chain generalizing n with
  | nil =>
    obtain rfl : n = t.root := by simpa using top
    rw [built.root_segments]
    rfl
  | cons p rest ih =>
    obtain ⟨⟨known, named⟩, above⟩ := List.isChain_cons_cons.mp ancestry
    have child := (built.shaped.mem_childNodes known).mpr ⟨member, named⟩
    rw [List.getLast?_cons_cons] at top
    rw [built.child_segments known child, List.countP_append, ih known above top, List.countP_cons]
    by_cases array : p.kind = .array <;> simp [Segment.below, array]

end Built

/-- Path texts are unambiguous: as texts of paths whose fields have names, as texts of a tree's nodes, and as texts of
single positions, where the text tells the node and the indices. -/
theorem path_texts_unambiguous :
    (∀ s u : List Segment, Path.Named s → Path.Named u → (Path.mk s).text = (Path.mk u).text → s = u) ∧
    ∀ t : SchemaTree, t.Built →
      (∀ n ∈ t.nodes, ∀ m ∈ t.nodes, n.pathText = m.pathText → n = m) ∧
      ∀ n ∈ t.nodes, ∀ m ∈ t.nodes, ∀ p q, n.path = some p → m.path = some q →
        ∀ (is js : List Int) (a b : Path), p.instantiate is = .ok a → q.instantiate js = .ok b →
          a.text = b.text → n = m ∧ is = js := by
  refine ⟨fun s u => Path.text_injective, fun t built => ⟨fun n one m other => built.pathText_injective one other, ?_⟩⟩
  intro n one m other p q first second is js a b filled also same
  obtain rfl := Option.some.inj (first.symm.trans (built.path_eq one))
  obtain rfl := Option.some.inj (second.symm.trans (built.path_eq other))
  obtain ⟨enough, _, _, rfl⟩ := Path.instantiate_eq_ok_iff.mp filled
  obtain ⟨count, _, _, rfl⟩ := Path.instantiate_eq_ok_iff.mp also
  have segments := Path.text_injective (Path.fill_named (built.segments_named n one) is)
    (Path.fill_named (built.segments_named m other) js) same
  have symbolic := built.segments_symbolic n one
  have alsoSymbolic := built.segments_symbolic m other
  constructor
  · have levels := congrArg (List.map Path.level) segments
    rw [Path.level_fill symbolic, Path.level_fill alsoSymbolic] at levels
    exact built.segments_injective m other n one levels
  · have chosen := congrArg (List.filterMap Path.chosen?) segments
    rwa [Path.chosen_fill symbolic enough, Path.chosen_fill alsoSymbolic count] at chosen

theorem device_sample : ∃ t, build {} device = .ok (.built t) ∧
    ∃ n ∈ t.nodes, n.path = some ⟨[.field "samples", .each]⟩ := by
  obtain ⟨t, ran, placed⟩ := built_with {} device (fun t => t.nodes[2]?.bind (·.path))
    (some ⟨[.field "samples", .each]⟩) (by decide +kernel)
  obtain ⟨n, standing, path⟩ := Option.bind_eq_some_iff.mp placed
  exact ⟨t, ran, n, List.mem_of_getElem? standing, path⟩

/-- A point in a name is no step, and two samples of a device have texts of their own. -/
theorem device_texts_apart :
    (Path.mk [.field "a.b"]).text ≠ (Path.mk [.field "a", .field "b"]).text ∧
    ∃ t : SchemaTree, t.Built ∧ ∃ n ∈ t.nodes, ∃ p a b : Path, n.path = some p ∧
      p.instantiate [0] = .ok a ∧ p.instantiate [1] = .ok b ∧ a.text ≠ b.text := by
  constructor
  · intro same
    have segments := path_texts_unambiguous.1 [.field "a.b"] [.field "a", .field "b"]
      (by simp [Path.Named, Segment.Named]) (by simp [Path.Named, Segment.Named]) same
    exact absurd segments (by decide)
  · obtain ⟨t, ran, n, member, placed⟩ := device_sample
    have built : t.Built := ⟨_, _, ran⟩
    refine ⟨t, built, n, member, _, _, _, placed, rfl, rfl, fun same => ?_⟩
    have indices := ((path_texts_unambiguous.2 t built).2 n member n member _ _ placed placed [0] [1] _ _ rfl rfl same).2
    exact absurd indices (by decide)

/-- What makes the index of a tree's paths exact, and the paths what the tree's links say. -/
structure PathsExact (t : SchemaTree) : Prop where
  size : t.paths.size = t.size
  keys : t.paths.keys = t.preorder.map (·.pathText)
  found : ∀ text entry, t.lookup text = some entry ↔
    ∃ n ∈ t.nodes, n.pathText = text ∧ entry.kind = n.kind ∧
      ∃ p, n.path = some p ∧ List.Forall₂ Compiles p.segments entry.steps
  alone : ∀ n ∈ t.nodes, ∀ m ∈ t.nodes, n.pathText = m.pathText → n = m
  unknown : ∀ text, t.lookup text = none ↔ ∀ n ∈ t.nodes, n.pathText ≠ text
  rootPath : t.root.path = some ⟨[]⟩
  childPath : ∀ m ∈ t.nodes, ∀ n, m.parentIn t.nodes = .ok (some n) →
    ∃ p, n.path = some p ∧ m.path = some ⟨p.segments ++ [if n.kind = .array then .each else .field m.name]⟩
  /-- As many levels of a path are open as there are arrays above its node. -/
  wildcards : ∀ n ∈ t.nodes, ∃ p chain, n.path = some p ∧ n.ancestorsIn t.nodes = .ok chain ∧
    p.wildcardCount = chain.countP (·.kind = .array)

/-- The index of every tree that building returns is exact. -/
theorem built_paths_exact {t : SchemaTree} (built : t.Built) : PathsExact t where
  size := by rw [PathIndex.size, built.paths_eq, List.length_map, built.preorder_perm.length_eq, SchemaTree.size]
  keys := by rw [PathIndex.keys, built.paths_eq, built.addressed_keys]
  found text entry := by
    rw [built.lookup_eq_some_iff]
    refine exists_congr fun n => and_congr_right fun member => ?_
    obtain ⟨steps, kind⟩ := entry
    simp only [built.path_eq member, Option.some.injEq, exists_eq_left', all_compile_iff, addressed, Prod.mk.injEq,
      built.pathText_eq member, PathEntry.mk.injEq]
    refine and_congr_right fun _ => ?_
    constructor
    · rintro ⟨rfl, rfl⟩
      exact ⟨rfl, rfl⟩
    · rintro ⟨rfl, rfl⟩
      exact ⟨rfl, rfl⟩
  alone n one m other := built.pathText_injective one other
  unknown text := built.lookup_eq_none_iff
  rootPath := by rw [built.path_eq built.root_member, built.root_segments]
  childPath m member n parent := by
    obtain ⟨_, _, _, _, _, _, grown⟩ := built.grown
    have known := ((parentIn_eq_some_iff grown member).mp parent).1
    have child := (built.mem_childNodes known).mpr ⟨member, parent⟩
    refine ⟨_, built.path_eq known, ?_⟩
    rw [built.path_eq member, built.child_segments known child]
    rfl
  wildcards n member := by
    obtain ⟨_, _, _, _, _, _, grown⟩ := built.grown
    obtain ⟨chain, climbed, _, ancestry, top⟩ := grown_ancestors grown member
    exact ⟨_, chain, built.path_eq member, climbed, built.wildcards_of_ancestry member ancestry top⟩

theorem device_paths_exact :
    ∃ t : SchemaTree, t.Built ∧ t.paths.keys = (["", "samples", "samples[*]", "reading"] : List Text) ∧ PathsExact t := by
  obtain ⟨t, ran, keys⟩ := built_with {} device (·.paths.keys) ["", "samples", "samples[*]", "reading"]
    (by decide +kernel)
  have built : t.Built := ⟨_, _, ran⟩
  exact ⟨t, built, keys, built_paths_exact built⟩

end SchemaTree

end PayloadSchema
