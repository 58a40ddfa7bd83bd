import Mathlib.Data.Multiset.Bind
import PayloadSchema.Proofs.Conformance.Keywords
import PayloadSchema.Proofs.Conformance.Selection
import PayloadSchema.Proofs.Tree.Addresses

/-! Extraction of whole documents. The paths of the leaves together select every scalar value of a conforming document
just once, as long as no leaf or array called `*` takes the values of its siblings too. -/
namespace PayloadSchema

namespace Json

mutual

/-- The values in a value that hold no others, in document order. -/
def scalars : Json → List Json
  | arr items => itemScalars items
  | obj members => memberScalars members
  | null => [null]
  | bool b => [bool b]
  | int i => [int i]
  | real x => [real x]
  | str s => [str s]
termination_by structural v => v

def itemScalars : List Json → List Json
  | [] => []
  | v :: rest => scalars v ++ itemScalars rest
termination_by structural items => items

def memberScalars : List (Text × Json) → List Json
  | [] => []
  | (_, v) :: rest => scalars v ++ memberScalars rest
termination_by structural members => members

end

theorem scalars_arr (items : List Json) : (arr items).scalars = items.flatMap scalars := by
  rw [scalars]
  induction items with
  | nil => rfl
  | cons v rest ih => rw [itemScalars, ih, List.flatMap_cons]

theorem scalars_obj (members : List (Text × Json)) : (obj members).scalars = members.flatMap fun m => m.2.scalars := by
  rw [scalars]
  induction members with
  | nil => rfl
  | cons m rest ih => rw [memberScalars, ih, List.flatMap_cons]

end Json

/-- Going through two lists in either order gives the same up to order. -/
theorem flatMap_comm {α β γ : Type} (xs : List α) (ys : List β) (f : α → β → List γ) :
    (xs.flatMap fun x => ys.flatMap (f x)).Perm (ys.flatMap fun y => xs.flatMap fun x => f x y) := by
  apply Multiset.coe_eq_coe.mp
  simp only [← Multiset.coe_bind]
  exact Multiset.bind_bind _ _

namespace SchemaTree
open Arena Branch Descriptor

variable {V : Validator} {F : Finder} {t : SchemaTree} {n m : Node} {d v : Json}

theorem scalars_of_scalar (scalar : v.Scalar) : v.scalars = [v] := by
  cases v with
  | arr _ | obj _ => exact scalar.elim
  | null | bool _ | int _ | real _ | str _ => rfl

namespace Built

variable (built : t.Built)
include built

/-- The scalars in an object or array that conforms are those in its parts. -/
theorem parts_scalars (member : n ∈ t.nodes) (composite : ¬ n.kind.isPrimitive) (keyed : v.Keyed)
    (conforms : Conforms v (t.branch n)) :
    ((childNodes t.nodes n).flatMap fun m =>
      (((Segment.below n.kind m.name).within v).map Prod.snd).flatMap Json.scalars).Perm v.scalars := by
  cases kind : n.kind with
  | object =>
    obtain ⟨members, rfl, _⟩ := (built.conforms_object member kind).mp conforms
    let inside := fun name => (Assoc.get? members name).toList.flatMap Json.scalars
    calc (childNodes t.nodes n).flatMap fun m =>
          (((Segment.field m.name).within (.obj members)).map Prod.snd).flatMap Json.scalars
      _ = n.descriptor.childNames.flatMap inside := by
        simp only [Segment.values_field, ← built.childNames member, List.flatMap_map, inside]
      List.Perm _ ((members.map Prod.fst).flatMap inside) :=
        (built.member_names member kind keyed conforms).flatMap_right inside
      _ = members.flatMap fun m => m.2.scalars := by
        rw [List.flatMap_map]
        refine List.flatMap_congr fun m listed => ?_
        simp only [inside, keyed.get?_iff.mpr listed, Option.toList_some, List.flatMap_singleton]
      _ = (Json.obj members).scalars := (Json.scalars_obj members).symm
  | array =>
    obtain ⟨items, m, rfl, only, _⟩ := (built.conforms_array member kind).mp conforms
    rw [only, List.flatMap_singleton, Json.scalars_arr]
    exact List.Perm.of_eq (congrArg (List.flatMap Json.scalars) (Segment.values_each items))
  | string | double | int | long | decimal128 | boolean | date | binary => exact absurd (kind ▸ rfl) composite

/-- What the leaves below a node select are the scalars at the node's sites. -/
theorem leaves_select (finding : F.Lawful) (apart : t.StarsApart) (keyed : d.Keyed) (conforms : Conforms d t.trunk) :
    ∀ n ∈ t.nodes, (((t.branch n).preorder.filter (·.kind.isPrimitive)).flatMap (·.selected F d)).Perm
      (((n.sites d).map Prod.snd).flatMap Json.scalars) := by
  refine built.upward fun n member below => ?_
  have conforming := built.sites_conform keyed conforms member
  rw [built.branch_eq member, preorder_mk, List.flatMap_map]
  by_cases primitive : n.kind.isPrimitive
  · have scalar : ∀ v ∈ (n.sites d).map Prod.snd, v.scalars = [v] := fun v found =>
      scalars_of_scalar (leaf_scalar primitive ((built.conforms_leaf member primitive).mp (conforming v found).2))
    rw [built.childless member primitive, List.flatMap_nil, List.filter_cons, if_pos primitive, List.filter_nil,
      List.flatMap_singleton, List.flatMap_congr scalar, List.flatMap_singleton',
      built.selected_leaf finding apart keyed conforms member primitive]
  · rw [List.filter_cons, if_neg primitive, List.filter_flatMap, List.flatMap_assoc]
    refine (List.Perm.flatMap_left _ below).trans ?_
    have parts : ∀ m ∈ childNodes t.nodes n, ((m.sites d).map Prod.snd).flatMap Json.scalars =
        ((n.sites d).map Prod.snd).flatMap fun v =>
          (((Segment.below n.kind m.name).within v).map Prod.snd).flatMap Json.scalars := fun m child => by
      rw [built.sites_child member child, Segment.values_follow, List.flatMap_assoc]
    rw [List.flatMap_congr parts]
    -- for each child all values, or for each value all children
    refine (flatMap_comm _ _ _).trans (List.Perm.flatMap_left _ fun v found => ?_)
    obtain ⟨vKeyed, vConforms⟩ := conforming v found
    exact built.parts_scalars member primitive vKeyed vConforms

theorem leaf_entries :
    ((t.paths.entries.filter (·.2.kind.isPrimitive)).flatMap fun entry => F.find entry.2.steps d) =
      (t.trunk.preorder.filter (·.kind.isPrimitive)).flatMap (·.selected F d) := by
  rw [built.paths_eq, built.preorder_trunk, List.filter_map, List.flatMap_map]
  rfl

end Built

/-- What makes extraction from a document exact. -/
structure ExtractsExactly (F : Finder) (t : SchemaTree) (d : Json) : Prop where
  /-- The entry of a leaf selects what stands at the leaf's positions, once for each position. -/
  leaves : ∀ n ∈ t.leaves, ∃ (entry : PathEntry) (sites : List (List Spot × Json)),
    t.lookup n.pathText = some entry ∧ (sites.map Prod.fst).Nodup ∧
      (∀ place v, (place, v) ∈ sites ↔ t.Occurs d n place v) ∧ F.find entry.steps d = sites.map Prod.snd
  apart : ∀ n m place v w, t.Occurs d n place v → t.Occurs d m place w → n = m
  /-- All leaf entries together select the scalars of the document, each as often as it stands there. -/
  scalars : ((t.paths.entries.filter (·.2.kind.isPrimitive)).flatMap fun entry => F.find entry.2.steps d).Perm
    d.scalars

theorem Built.extracts_exactly (built : t.Built) (finding : F.Lawful) (apart : t.StarsApart) (keyed : d.Keyed)
    (conforms : Conforms d t.trunk) : ExtractsExactly F t d := by
  refine ⟨fun n listed => ?_, fun n m place v w => built.occurs_unique, ?_⟩
  · have member := built.mem_preorder.mp (List.mem_filter.mp listed).1
    have selected := built.selected_leaf finding apart keyed conforms member (built.leaf_primitive listed)
    exact ⟨_, n.sites d, built.lookup_path member, n.sites_nodup d, built.mem_sites keyed conforms n member, selected⟩
  · have all := built.leaves_select finding apart keyed conforms t.root built.root_member
    rwa [built.sites_root, List.map_singleton, List.flatMap_singleton, ← trunk, ← built.leaf_entries] at all

/-- Whatever the validator and the finder are, nothing is lost and nothing extracted twice from a document that conforms,
unless a leaf or an array called `*` has siblings. -/
theorem extraction_exact (built : t.Built) (checking : V.Lawful) (finding : F.Lawful) (apart : t.StarsApart)
    (keyed : d.Keyed) (bare : ¬ t.IsMessage d) (conforms : t.check V d = []) : ExtractsExactly F t d :=
  built.extracts_exactly finding apart keyed ((built.check_document_iff checking bare).mp conforms)

/-- In a document that was read no two members of an object have the same name. -/
theorem read_extracted {limit : Option Nat} {text : Text} (built : t.Built) (checking : V.Lawful)
    (finding : F.Lawful) (apart : t.StarsApart) (read : Json.read limit text = .ok d) (bare : ¬ t.IsMessage d)
    (conforms : t.check V d = []) : ExtractsExactly F t d :=
  built.extracts_exactly finding apart (Json.read_keyed read) ((built.check_document_iff checking bare).mp conforms)

/-- A star with a sibling, but with children of its own. One of them has a point in its name. -/
def starry : List Descriptor :=
  [{ name := "root", type := "object", children := some ["*", "peer"] },
    { name := "*", type := "object", parent := "root", children := some ["a.b", "list"] },
    { name := "a.b", type := "string", parent := "*" },
    { name := "list", type := "array", parent := "*", children := some ["entry"], size := 2 },
    { name := "entry", type := "int", parent := "list" },
    { name := "peer", type := "object", parent := "root", children := some ["flag"] },
    { name := "flag", type := "boolean", parent := "peer" }]

def starryDocument : Json :=
  .obj [("peer", .obj [("flag", .bool true)]), ("*", .obj [("a.b", .str "x"), ("list", .arr [.int 7, .int 7])])]

theorem starryDocument_keyed : starryDocument.Keyed := by
  refine .obj (by decide) (List.forall_mem_cons.mpr ⟨?_, List.forall_mem_singleton.mpr (.obj (by decide) ?_)⟩)
  · exact .obj (by decide) (List.forall_mem_singleton.mpr (.bool true))
  · refine List.forall_mem_cons.mpr ⟨.str "x", List.forall_mem_singleton.mpr (.arr ?_)⟩
    exact List.forall_mem_cons.mpr ⟨.int 7, List.forall_mem_singleton.mpr (.int 7)⟩

theorem starry_extracted :
    ∃ (V : Validator) (F : Finder) (t : SchemaTree), V.Lawful ∧ F.Lawful ∧ t.Built ∧ t.StarsApart ∧
      starryDocument.Keyed ∧ ¬ t.IsMessage starryDocument ∧ t.check V starryDocument = [] ∧
      ExtractsExactly F t starryDocument := by
  obtain ⟨t, ran, computed⟩ := built_with {} starry
    (fun t => (decide t.StarsApart, (t.check .recursive starryDocument).isEmpty)) (true, true) (by decide +kernel)
  obtain ⟨apart, conforms⟩ := Prod.mk.inj computed
  have built : t.Built := ⟨_, _, ran⟩
  have apart : t.StarsApart := of_decide_eq_true apart
  have sound : t.check .recursive starryDocument = [] := List.isEmpty_iff.mp conforms
  have bare : ¬ t.IsMessage starryDocument := not_message (by decide)
  exact ⟨.recursive, .stepwise, t, Validator.recursive_lawful, Finder.stepwise_lawful, built, apart,
    starryDocument_keyed, bare, sound,
    extraction_exact built Validator.recursive_lawful Finder.stepwise_lawful apart starryDocument_keyed bare sound⟩

/-- An object with a leaf whose name is a star, and another one. -/
def crowded : List Descriptor :=
  [{ name := "root", type := "object", children := some ["*", "a"] },
    { name := "*", type := "double", parent := "root" },
    { name := "a", type := "double", parent := "root" }]

def crowdedDocument : Json := .obj [("*", .int 1), ("a", .int 2)]

def crowdedPaths : List (List Step × NodeType) := [([], .object), ([.field "*"], .double), ([.field "a"], .double)]

theorem crowded_found (finding : F.Lawful) :
    F.find [.field "*"] crowdedDocument = [.int 1, .int 2] ∧ F.find [.field "a"] crowdedDocument = [.int 2] := by
  constructor
  · have step := finding.child [] (.field "*") crowdedDocument
    rwa [finding.root, List.flatMap_singleton, crowdedDocument, finding.star] at step
  · have step := finding.child [] (.field "a") crowdedDocument
    rwa [finding.root, List.flatMap_singleton, finding.field (by decide)] at step

/-- A star beside another child takes the value of that child too, though the document conforms, whatever the validator
and the finder are. -/
theorem star_takes_sibling :
    ∃ t, build {} crowded = .ok (.built t) ∧ crowdedDocument.Keyed ∧ ¬ t.IsMessage crowdedDocument ∧
      (∀ V : Validator, V.Lawful → t.check V crowdedDocument = []) ∧
      (∀ F : Finder, F.Lawful → ¬ ExtractsExactly F t crowdedDocument) ∧
      (∃ V : Validator, V.Lawful) ∧ ∃ F : Finder, F.Lawful := by
  obtain ⟨t, ran, computed⟩ := built_with {} crowded
    (fun t => ((t.check .recursive crowdedDocument).isEmpty, t.paths.entries.map fun e => (e.2.steps, e.2.kind)))
    (true, crowdedPaths) (by decide +kernel)
  obtain ⟨conforms, paths⟩ := Prod.mk.inj computed
  have built : t.Built := ⟨_, _, ran⟩
  refine ⟨t, ran, .obj (by decide) ?_, not_message (by decide), fun V checking => ?_, fun F finding extracted => ?_,
    ⟨_, Validator.recursive_lawful⟩, _, Finder.stepwise_lawful⟩
  · exact List.forall_mem_cons.mpr ⟨.int 1, List.forall_mem_singleton.mpr (.int 2)⟩
  · rw [built.check_eq_nil_iff checking, ← built.check_eq_nil_iff Validator.recursive_lawful]
    exact List.isEmpty_iff.mp conforms
  · obtain ⟨both, one⟩ := crowded_found finding
    have found : (crowdedPaths.filter (·.2.isPrimitive)).flatMap (fun e => F.find e.1 crowdedDocument) =
        [.int 1, .int 2, .int 2] := by
      rw [crowdedPaths]
      simp [NodeType.isPrimitive, both, one]
    have same := extracted.scalars.length_eq
    rw [← paths, List.filter_map, List.flatMap_map] at found
    exact absurd (found ▸ same) (by decide)

end SchemaTree

end PayloadSchema
