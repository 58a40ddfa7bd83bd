import PayloadSchema.Proofs.Conformance.Examples
import PayloadSchema.Proofs.Conformance.Selection
import PayloadSchema.Proofs.Tree.Addresses

/-! Indices and wildcards. A path selects one value for each choice of elements of the arrays above its node, and they
come in the order in which nested loops over these arrays would meet them. With indices in the places of the wildcards
it selects the one value that the indices choose, and nothing where an index is beyond its array. -/
namespace PayloadSchema

/-- The place of a choice of indices among all choices when the last index runs fastest. -/
def rowMajor (sizes is : List Nat) : Nat := (sizes.zip is).foldl (fun place level => place * level.1 + level.2) 0

theorem rowMajor_concat {sizes is : List Nat} (levels : is.length = sizes.length) (s i : Nat) :
    rowMajor (sizes ++ [s]) (is ++ [i]) = rowMajor sizes is * s + i := by
  rw [rowMajor, List.zip_append levels.symm, List.foldl_append]
  rfl

/-- The third of four columns in the second row of a table. -/
example : rowMajor [3, 4] [1, 2] = 6 := by decide

namespace Path

/-- Indices are taken from left to right. -/
theorem fill_concat {segments : List Segment} {indices : List Int}
    (levels : indices.length = segments.countP (· = .each)) (s : Segment) (more : List Int) :
    fill (segments ++ [s]) (indices ++ more) = fill segments indices ++ fill [s] more := by
  induction segments generalizing indices with
  | nil =>
    obtain rfl := List.length_eq_zero_iff.mp levels
    rfl
  | cons first rest ih =>
    cases first with
    | each =>
      cases indices with
      | nil => simp at levels
      | cons i indices => exact congrArg (.index i :: ·) (ih (by simpa using levels))
    | field name => exact congrArg (.field name :: ·) (ih (by simpa using levels))
    | index i => exact congrArg (.index i :: ·) (ih (by simpa using levels))

end Path

/-- What a path selects in a document when indices stand in the places of its wildcards. -/
def chosen (F : Finder) (segments : List Segment) (is : List Nat) (d : Json) : List Json :=
  F.find (Path.mk (Path.fill segments (is.map Int.ofNat))).steps d

/-- How indices choose among the values that a path selects, where arrays of some sizes lie on the way to them. -/
structure Indexed (F : Finder) (segments : List Segment) (sizes : List Nat) (d : Json) (found : List Json) : Prop where
  levels : segments.countP (· = .each) = sizes.length
  count : found.length = sizes.prod
  within : ∀ is, List.Forall₂ (· < ·) is sizes → ∃ v, chosen F segments is d = [v] ∧ found[rowMajor sizes is]? = some v
  beyond : ∀ is, is.length = sizes.length → ¬ List.Forall₂ (· < ·) is sizes → chosen F segments is d = []

section Steps

variable {F : Finder} {segments : List Segment} {sizes : List Nat} {d : Json} {found : List Json} (finding : F.Lawful)
include finding

theorem indexed_root (d : Json) : Indexed F [] [] d [d] where
  levels := rfl
  count := rfl
  within is inside := by
    obtain rfl := List.forall₂_nil_right_iff.mp inside
    exact ⟨d, finding.root d, rfl⟩
  beyond is levels outside := by
    obtain rfl := List.length_eq_zero_iff.mp levels
    exact absurd List.Forall₂.nil outside

/-- One more segment selects from what was selected before, with its own index if it takes one. -/
theorem chosen_concat {is : List Nat} (levels : is.length = segments.countP (· = .each)) {s : Segment} {step : Step}
    {more : List Nat} (filled : (Path.fill [s] (more.map Int.ofNat)).map Step.ofSegment = [step]) :
    chosen F (segments ++ [s]) (is ++ more) d = (chosen F segments is d).flatMap (F.lead step) := by
  rw [chosen, List.map_append, Path.fill_concat (by rwa [List.length_map]), Path.steps, List.map_append, filled]
  exact finding.child _ _ _

section Steps

variable (indexed : Indexed F segments sizes d found)
include indexed

/-- A field that leads from every value to a single one changes no place. -/
theorem indexed_field {name : Text} (single : ∀ v ∈ found, ∃ w, F.lead (.field name) v = [w]) :
    Indexed F (segments ++ [.field name]) sizes d (found.flatMap (F.lead (.field name))) := by
  have one : ∀ v ∈ found, (F.lead (.field name) v).length = 1 := fun v member => by
    obtain ⟨w, same⟩ := single v member
    rw [same]
    rfl
  have step {is : List Nat} (levels : is.length = sizes.length) : chosen F (segments ++ [.field name]) is d =
      (chosen F segments is d).flatMap (F.lead (.field name)) := by
    have filled : (Path.fill [.field name] (([] : List Nat).map Int.ofNat)).map Step.ofSegment = [.field name] := rfl
    rw [← chosen_concat finding (levels.trans indexed.levels.symm) filled, List.append_nil]
  refine ⟨by simp [indexed.levels], by rw [flatMap_length one, indexed.count, Nat.mul_one], fun is inside => ?_,
    fun is levels outside => by rw [step levels, indexed.beyond is levels outside, List.flatMap_nil]⟩
  obtain ⟨v, selected, place⟩ := indexed.within is inside
  obtain ⟨w, same⟩ := single v (List.mem_of_getElem? place)
  refine ⟨w, by rw [step inside.length_eq, selected, List.flatMap_singleton, same], ?_⟩
  have part := flatMap_getElem? one place Nat.zero_lt_one
  rwa [Nat.mul_one, Nat.add_zero, same] at part

/-- Arrays of one size make of each place as many, with the elements of an array side by side. -/
theorem indexed_each {s : Nat} (sized : ∀ v ∈ found, ∃ items, v = .arr items ∧ items.length = s) :
    Indexed F (segments ++ [.each]) (sizes ++ [s]) d (found.flatMap (F.lead .each)) := by
  have same : ∀ v ∈ found, (F.lead .each v).length = s := fun v member => by
    obtain ⟨items, rfl, size⟩ := sized v member
    rw [finding.each, size]
  have step {is : List Nat} (levels : is.length = sizes.length) (i : Nat) :
      chosen F (segments ++ [.each]) (is ++ [i]) d = (chosen F segments is d).flatMap (F.lead (.index i)) :=
    chosen_concat finding (levels.trans indexed.levels.symm) rfl
  have split (is : List Nat) (levels : is.length = (sizes ++ [s]).length) :
      ∃ outer i, is = outer ++ [i] ∧ outer.length = sizes.length := by
    rcases is.eq_nil_or_concat with rfl | ⟨outer, i, rfl⟩
    · simp at levels
    · exact ⟨outer, i, List.concat_eq_append, by simpa using levels⟩
  refine ⟨by simp [indexed.levels], by rw [flatMap_length same, indexed.count, List.prod_append, List.prod_singleton],
    fun is inside => ?_, fun is levels outside => ?_⟩
  · obtain ⟨outer, i, rfl, levels⟩ := split is inside.length_eq
    obtain ⟨above, small⟩ := (forall₂_concat levels).mp inside
    obtain ⟨v, selected, place⟩ := indexed.within outer above
    obtain ⟨items, rfl, size⟩ := sized v (List.mem_of_getElem? place)
    have bound : i < items.length := size ▸ small
    refine ⟨items[i], ?_, ?_⟩
    · rw [step levels, selected, List.flatMap_singleton, finding.index, List.getElem?_eq_getElem bound,
        Option.toList_some]
    · rw [rowMajor_concat levels, flatMap_getElem? same place small, finding.each]
      exact List.getElem?_eq_getElem bound
  · obtain ⟨outer, i, rfl, shorter⟩ := split is levels
    rw [step shorter]
    by_cases above : List.Forall₂ (· < ·) outer sizes
    · have large : ¬ i < s := fun small => outside ((forall₂_concat shorter).mpr ⟨above, small⟩)
      obtain ⟨v, selected, place⟩ := indexed.within outer above
      obtain ⟨items, rfl, size⟩ := sized v (List.mem_of_getElem? place)
      rw [selected, List.flatMap_singleton, finding.index, List.getElem?_eq_none (size ▸ Nat.not_lt.mp large),
        Option.toList_none]
    · rw [indexed.beyond outer shorter above, List.flatMap_nil]

end Steps

end Steps

namespace SchemaTree
open Arena Branch Descriptor

variable {V : Validator} {F : Finder} {t : SchemaTree} {n m : Node} {d v : Json}

/-- The sizes of the arrays among some nodes that lie above each other, the nearest first. -/
def arraySizes (chain : List Node) : List Nat := (chain.filter (·.kind = .array)).reverse.map (·.size.toNat)

theorem arraySizes_cons (n : Node) (chain : List Node) :
    arraySizes (n :: chain) = if n.kind = .array then arraySizes chain ++ [n.size.toNat] else arraySizes chain := by
  unfold arraySizes
  split <;> simp [*]

namespace Built

variable (built : t.Built)
include built

section Conforming

variable (finding : F.Lawful) (starless : ∀ n ∈ t.nodes, n.name ≠ "*") (keyed : d.Keyed)
  (conforms : Conforms d t.trunk)
include finding starless keyed conforms

/-- Without stars, a path selects what stands at the sites of its node. -/
theorem selected_sites : ∀ n ∈ t.nodes, n.selected F d = (n.sites d).map Prod.snd := by
  refine built.downward ?_ fun n member m child above => ?_
  · rw [built.selected_root finding, built.sites_root]
    rfl
  · rw [built.selected_child finding member child, above, built.sites_child member child, Segment.values_follow]
    refine List.flatMap_congr fun v found => ?_
    obtain ⟨vKeyed, vConforms⟩ := built.sites_conform keyed conforms member v found
    have known := built.shaped.child_member member child
    exact built.select_below finding vKeyed vConforms member child fun star => absurd star (starless m known)

theorem selected_conforms (member : n ∈ t.nodes) : ∀ v ∈ n.selected F d, v.Keyed ∧ Conforms v (t.branch n) := by
  rw [built.selected_sites finding starless keyed conforms n member]
  exact built.sites_conform keyed conforms member

/-- The arrays above a node are the levels of its indices. -/
theorem indexed_of_ancestry {chain : List Node} (member : n ∈ t.nodes) (ancestry : Ancestry t.nodes (n :: chain))
    (top : (n :: chain).getLast? = some t.root) : Indexed F n.segments (arraySizes chain) d (n.selected F d) := by
  induction chain generalizing n with
  | nil =>
    obtain rfl : n = t.root := by simpa using top
    rw [built.root_segments, built.selected_root finding]
    exact indexed_root finding d
  | cons p rest ih =>
    obtain ⟨⟨known, named⟩, above⟩ := List.isChain_cons_cons.mp ancestry
    have child := (built.shaped.mem_childNodes known).mpr ⟨member, named⟩
    rw [List.getLast?_cons_cons] at top
    have upper := ih known above top
    have conforming := built.selected_conforms finding starless keyed conforms known
    rw [built.child_segments known child, built.selected_child finding known child, arraySizes_cons]
    rcases built.parent_kind known child with kind | kind
    · rw [kind]
      refine indexed_field finding upper fun v found => ?_
      obtain ⟨members, rfl, each, _⟩ := (built.conforms_object known kind).mp (conforming v found).2
      obtain ⟨w, there, _⟩ := each n child
      have field : F.lead (.field n.name) (.obj members) = (Assoc.get? members n.name).toList :=
        finding.field (starless n member) _
      exact ⟨w, by rw [field, there, Option.toList_some]⟩
    · rw [kind]
      refine indexed_each finding upper fun v found => ?_
      obtain ⟨items, _, rfl, _, _, size⟩ := (built.conforms_array known kind).mp (conforming v found).2
      exact ⟨items, rfl, by omega⟩

end Conforming

/-- Every value that a path selects in the example document is the example value of its node. -/
theorem selected_example (finding : F.Lawful) (starless : ∀ n ∈ t.nodes, n.name ≠ "*") :
    ∀ n ∈ t.nodes, ∀ v ∈ n.selected F t.exampleDocument, v = (t.branch n).exampleValue := by
  refine built.downward (fun v found => ?_) fun n member m child above w found => ?_
  · rw [built.selected_root finding, List.mem_singleton] at found
    rw [found, built.exampleDocument_eq]
  · rw [built.selected_child finding member child, List.mem_flatMap] at found
    obtain ⟨v, listed, inside⟩ := found
    obtain rfl := above v listed
    have known := built.shaped.child_member member child
    rcases built.parent_kind member child with kind | kind
    · have named : Assoc.get? ((childNodes t.nodes n).map fun m => (m.name, (t.branch m).exampleValue)) m.name =
          some (t.branch m).exampleValue :=
        (Assoc.get?_eq_some_iff (built.example_distinct member)).mpr (List.mem_map_of_mem child)
      have field : w ∈ F.lead (.field m.name) (t.branch n).exampleValue := by rwa [kind] at inside
      rw [built.example_object member kind, finding.field (starless m known), Json.get?, named] at field
      exact List.mem_singleton.mp field
    · obtain ⟨only, alone⟩ := built.element member kind
      rw [alone, List.mem_singleton] at child
      have each : w ∈ F.lead .each (t.branch n).exampleValue := by rwa [kind] at inside
      rw [built.example_array member kind alone, finding.each] at each
      rw [child]
      exact List.eq_of_mem_replicate each

end Built

/-- How the values that a path with wildcards selects in a document are told apart by indices, where arrays of some
sizes lie on the way to them. -/
structure Tabulated (F : Finder) (path : Path) (sizes : List Nat) (d : Json) (found : List Json) : Prop where
  count : found.length = sizes.prod
  /-- Indices make the path of a position, as far as they can be written. -/
  made : ∀ is : List Nat, is.length = sizes.length → (∀ i ∈ is, Numeral.isWritable i) →
    ∃ concrete, path.instantiate (is.map Int.ofNat) = .ok concrete
  refused : ∀ is : List Nat, is.length = sizes.length → (¬ ∀ i ∈ is, Numeral.isWritable i) →
    path.instantiate (is.map Int.ofNat) = .error .unwritable
  /-- Indices within the arrays select a single value, and it stands at their place among all. -/
  within : ∀ is : List Nat, List.Forall₂ (· < ·) is sizes → ∃ v, found[rowMajor sizes is]? = some v ∧
    ∀ concrete, path.instantiate (is.map Int.ofNat) = .ok concrete → F.find concrete.steps d = [v]
  /-- An index beyond its array leads nowhere. -/
  beyond : ∀ is : List Nat, is.length = sizes.length → (∃ level ∈ is.zip sizes, level.2 ≤ level.1) →
    ∀ concrete, path.instantiate (is.map Int.ofNat) = .ok concrete → F.find concrete.steps d = []

theorem tabulated_of_indexed {segments : List Segment} {sizes : List Nat} {found : List Json}
    (indexed : Indexed F segments sizes d found) : Tabulated F ⟨segments⟩ sizes d found := by
  have counted (is : List Nat) (levels : is.length = sizes.length) :
      (is.map Int.ofNat).length = (Path.mk segments).wildcardCount := by
    rw [List.length_map, levels]
    exact indexed.levels.symm
  have filled {is : List Nat} {concrete : Path}
      (made : (Path.mk segments).instantiate (is.map Int.ofNat) = .ok concrete) :
      F.find concrete.steps d = chosen F segments is d := by
    obtain ⟨_, _, _, rfl⟩ := Path.instantiate_eq_ok_iff.mp made
    rfl
  refine ⟨indexed.count, fun is levels short => ?_, fun is levels long => ?_, fun is inside => ?_,
    fun is levels outside concrete made => ?_⟩
  · refine ⟨_, Path.instantiate_eq_ok_iff.mpr ⟨counted is levels, List.forall_mem_map.mpr short, ?_, rfl⟩⟩
    intro i listed
    obtain ⟨k, _, rfl⟩ := List.mem_map.mp listed
    exact Int.natCast_nonneg k
  · exact Path.instantiate_of_long (counted is levels) fun short => long (List.forall_mem_map.mp short)
  · obtain ⟨v, selected, place⟩ := indexed.within is inside
    exact ⟨v, place, fun concrete made => (filled made).trans selected⟩
  · refine (filled made).trans (indexed.beyond is levels fun inside => ?_)
    obtain ⟨level, listed, large⟩ := outside
    exact absurd ((List.forall₂_iff_zip.mp inside).2 listed) (Nat.not_lt.mpr large)

/-- Whether in a document the path of every node selects as many values as the arrays above the node have elements in
all, each of them where indices say and as the subtree of the node says. -/
def SelectsByIndex (V : Validator) (F : Finder) (t : SchemaTree) (d : Json) : Prop :=
  ∀ n ∈ t.nodes, ∃ chain path entry, n.ancestorsIn t.nodes = .ok chain ∧ n.path = some path ∧
    t.lookup n.pathText = some entry ∧ Tabulated F path (arraySizes chain) d (F.find entry.steps d) ∧
    ∀ v ∈ F.find entry.steps d, V.errors (.mk (Schema.keywordsOf (t.branch n))) v = []

/-- Whether the path of every node selects only its example value in the example document. -/
def SelectsExamples (F : Finder) (t : SchemaTree) : Prop :=
  ∀ n ∈ t.nodes, ∃ entry, t.lookup n.pathText = some entry ∧
    ∀ v ∈ F.find entry.steps t.exampleDocument, v = (t.branch n).exampleValue

namespace Built

variable (built : t.Built) (finding : F.Lawful) (starless : ∀ n ∈ t.nodes, n.name ≠ "*")
include built finding starless

theorem selects_by_index (checking : V.Lawful) (keyed : d.Keyed) (conforms : Conforms d t.trunk) :
    t.SelectsByIndex V F d := by
  intro n member
  obtain ⟨_, _, _, _, _, _, grown⟩ := built.grown
  obtain ⟨chain, climbed, _, ancestry, top⟩ := grown_ancestors grown member
  have indexed := built.indexed_of_ancestry finding starless keyed conforms member ancestry top
  refine ⟨chain, _, _, climbed, built.path_eq member, built.lookup_path member, tabulated_of_indexed indexed,
    fun v listed => ?_⟩
  have direct := (agrees checking _ (built.branch_distinct member)).errors checking [] v
  have sound := (built.selected_conforms finding starless keyed conforms member v listed).2
  rw [faults_eq_nil_iff _ [] v |>.mpr sound] at direct
  exact List.map_eq_nil_iff.mp direct

theorem selects_examples : t.SelectsExamples F := fun n member =>
  ⟨_, built.lookup_path member, built.selected_example finding starless n member⟩

end Built

/-- Whatever the validator and the finder are, extraction by wildcards and by indices agree in every document that
conforms, unless a node is called `*`. -/
theorem selection_by_index (built : t.Built) (checking : V.Lawful) (finding : F.Lawful)
    (starless : ∀ n ∈ t.nodes, n.name ≠ "*") :
    (∀ d : Json, d.Keyed → ¬ t.IsMessage d → t.check V d = [] → t.SelectsByIndex V F d) ∧ t.SelectsExamples F :=
  ⟨fun _ keyed bare conforms => built.selects_by_index finding starless checking keyed
    ((built.check_document_iff checking bare).mp conforms), built.selects_examples finding starless⟩

/-- In a document that was read no two members of an object have the same name. -/
theorem read_selected {limit : Option Nat} {text : Text} (built : t.Built) (checking : V.Lawful)
    (finding : F.Lawful) (starless : ∀ n ∈ t.nodes, n.name ≠ "*") (read : Json.read limit text = .ok d)
    (bare : ¬ t.IsMessage d) (conforms : t.check V d = []) : t.SelectsByIndex V F d :=
  built.selects_by_index finding starless checking (Json.read_keyed read)
    ((built.check_document_iff checking bare).mp conforms)

/-- Two rows of three cells. -/
def table : List Descriptor :=
  [{ name := "cell", type := "object", parent := "row", children := some ["a.b"] },
    { name := "a.b", type := "int", parent := "cell" },
    { name := "table", type := "object", children := some ["rows"] },
    { name := "rows", type := "array", parent := "table", children := some ["row"], size := 2 },
    { name := "row", type := "array", parent := "rows", children := some ["cell"], size := 3 }]

def tableCell (i : Int) : Json := .obj [("a.b", .int i)]

def tableDocument : Json :=
  .obj [("rows", .arr [.arr ([1, 2, 3].map tableCell), .arr ([4, 5, 6].map tableCell)])]

theorem tableDocument_keyed : tableDocument.Keyed := by
  have cell (i : Int) : (tableCell i).Keyed := .obj (List.nodup_singleton _) (List.forall_mem_singleton.mpr (.int i))
  have row (is : List Int) : (Json.arr (is.map tableCell)).Keyed := .arr (List.forall_mem_map.mpr fun i _ => cell i)
  refine .obj (List.nodup_singleton _) (List.forall_mem_singleton.mpr (.arr ?_))
  exact List.forall_mem_cons.mpr ⟨row _, List.forall_mem_singleton.mpr (row _)⟩

theorem table_selected_by_index :
    ∃ (V : Validator) (F : Finder) (t : SchemaTree), V.Lawful ∧ F.Lawful ∧ t.Built ∧ (∀ n ∈ t.nodes, n.name ≠ "*") ∧
      tableDocument.Keyed ∧ ¬ t.IsMessage tableDocument ∧ t.check V tableDocument = [] ∧
      t.SelectsByIndex V F tableDocument ∧ t.SelectsExamples F := by
  obtain ⟨t, ran, computed⟩ := built_with {} table
    (fun t => (decide (∀ n ∈ t.nodes, n.name ≠ "*"), (t.check .recursive tableDocument).isEmpty)) (true, true)
    (by decide +kernel)
  obtain ⟨starless, conforms⟩ := Prod.mk.inj computed
  have built : t.Built := ⟨_, _, ran⟩
  have starless : ∀ n ∈ t.nodes, n.name ≠ "*" := of_decide_eq_true starless
  have sound : t.check .recursive tableDocument = [] := List.isEmpty_iff.mp conforms
  have bare : ¬ t.IsMessage tableDocument := not_message (by decide)
  obtain ⟨selected, examples⟩ := selection_by_index built Validator.recursive_lawful Finder.stepwise_lawful starless
  exact ⟨.recursive, .stepwise, t, Validator.recursive_lawful, Finder.stepwise_lawful, built, starless,
    tableDocument_keyed, bare, sound, selected _ tableDocument_keyed bare sound, examples⟩

end SchemaTree

end PayloadSchema
