import PayloadSchema.Proofs.Descriptor.Normalization
import PayloadSchema.Proofs.Json.Rereading

/-! Descriptors as documents. A list of their objects, alone or inside a document that holds other things as well, is
loaded as the descriptors it was made of, and so is its text. -/
namespace PayloadSchema.Descriptor
open Json

variable {depthLimit : Option Nat} {ds : List Descriptor} {members : List (Text × Json)} {v : Json}

/-- The list of the objects of some descriptors. -/
def listForm (ds : List Descriptor) : Json := .arr (ds.map toJson)

/-- The texts that a descriptor is made of. -/
def texts (d : Descriptor) : List Text := [d.name, d.type, d.parent, d.unit, d.description] ++ d.childNames

/-- Whether all that a descriptor says is read as it is written: its size has no more digits than a numeral may have,
and no character of its texts is split in two, as none is in a text without surrogates. -/
structure Spellable (d : Descriptor) : Prop where
  short : (Numeral.natural d.size.natAbs).length ≤ Numeral.digitLimit
  unsplit : ∀ s ∈ d.texts, s.Unsplit

/-! ### Their text -/

theorem readable_names {names : List Text} (unsplit : ∀ name ∈ names, name.Unsplit) :
    Readable 1 (.arr (names.map .str)) :=
  .arr (List.forall_mem_map.mpr fun name member => .str (unsplit name member))

theorem readable_objectForm {d : Descriptor} (spellable : d.Spellable) : Readable 2 d.toJson := by
  obtain ⟨short, unsplit⟩ := spellable
  rw [texts, List.forall_mem_append] at unsplit
  obtain ⟨own, children⟩ := unsplit
  simp only [List.forall_mem_cons, List.not_mem_nil, false_imp_iff, implies_true, and_true] at own
  obtain ⟨name, type, parent, unit, description⟩ := own
  refine .obj (by simp) ?_ ?_
  · simp only [List.forall_mem_cons, List.not_mem_nil, false_imp_iff, implies_true, and_true,
      Text.unsplit_ofString]
  · simp only [List.forall_mem_cons, List.not_mem_nil, false_imp_iff, implies_true, and_true]
    exact ⟨.str name, .str type, .str parent, readable_names children, .int short, .str unit, .str description⟩

theorem readable_listForm (spellable : ∀ d ∈ ds, d.Spellable) : Readable 3 (listForm ds) :=
  .arr (List.forall_mem_map.mpr fun d member => readable_objectForm (spellable d member))

/-- Strings, whole numbers and lists of them are read as they are. -/
theorem reread_objectForm (d : Descriptor) : d.toJson.reread = d.toJson := by
  have names : (d.childNames.map Json.str).map reread = d.childNames.map .str := by
    rw [List.map_map]
    rfl
  simp only [toJson, reread, rereadMembers, rereadItems_eq, names]

theorem reread_listForm (ds : List Descriptor) : (listForm ds).reread = listForm ds := by
  have objects : (ds.map toJson).map reread = ds.map toJson := by
    rw [List.map_map]
    exact List.map_congr_left fun d _ => reread_objectForm d
  rw [listForm, reread, rereadItems_eq, objects]

/-! ### Loading -/

theorem load_text {cs : Text} (read : Json.read depthLimit cs = .ok v) :
    (Source.text cs).load depthLimit = ofDocument v := by
  rw [Source.load, Source.document, read]
  rfl

/-- The text of a value that can be read holds the descriptors of the value that is read. -/
theorem load_write {room : Nat} (readable : Readable room v) (enough : ∀ most ∈ depthLimit, room ≤ most) :
    (Source.text v.write).load depthLimit = ofDocument v.reread :=
  load_text (read_readable readable enough)

theorem ofDocument_listForm (ds : List Descriptor) : ofDocument (listForm ds) = .ok (ds.map filled) :=
  ofItems_objectForms ds

theorem ofDocument_member (listed : Assoc.get? members "treeNodes" = some (listForm ds)) :
    ofDocument (.obj members) = .ok (ds.map filled) := by
  rw [ofDocument, listed]
  exact ofItems_objectForms ds

theorem readable_document {room : Nat} (spellable : ∀ d ∈ ds, d.Spellable)
    (distinct : (members.map Prod.fst).Nodup) (unsplit : ∀ entry ∈ members, entry.1.Unsplit)
    (listed : Assoc.get? members "treeNodes" = some (listForm ds))
    (others : ∀ entry ∈ members, entry.1 ≠ "treeNodes" → Readable room entry.2) :
    Readable (max 3 room + 1) (.obj members) := by
  refine .obj distinct unsplit fun entry member => ?_
  by_cases nodes : entry.1 = "treeNodes"
  · have same : some entry.2 = some (listForm ds) :=
      ((Assoc.get?_eq_some_iff distinct).mpr (nodes ▸ member)).symm.trans listed
    rw [Option.some.inj same]
    exact (readable_listForm spellable).mono (Nat.le_max_left _ _)
  · exact (others entry member nodes).mono (Nat.le_max_right _ _)

/-- Descriptors are loaded from the list of their objects, from a document that has this list among its members, and
from the text of either, as long as they and the other members can be read. Of what they were, only children that were
missing are now none. -/
theorem descriptors_survive (ds : List Descriptor) (depthLimit : Option Nat) :
    (Source.value (listForm ds)).load depthLimit = .ok (ds.map filled) ∧
    ((∀ d ∈ ds, d.Spellable) → (∀ most ∈ depthLimit, 3 ≤ most) →
      (Source.text (listForm ds).write).load depthLimit = .ok (ds.map filled)) ∧
    (∀ members, (members.map Prod.fst).Nodup → (("treeNodes" : Text), listForm ds) ∈ members →
      (Source.value (.obj members)).load depthLimit = .ok (ds.map filled) ∧
      ((∀ d ∈ ds, d.Spellable) → (∀ entry ∈ members, entry.1.Unsplit) →
        ∀ room, (∀ entry ∈ members, entry.1 ≠ "treeNodes" → Readable room entry.2) →
          (∀ most ∈ depthLimit, max 3 room + 1 ≤ most) →
          (Source.text (Json.obj members).write).load depthLimit = .ok (ds.map filled))) ∧
    ((∀ d ∈ ds, d.children.isSome) → ds.map filled = ds) := by
  refine ⟨ofDocument_listForm ds, fun spellable enough => ?_, fun members distinct member => ?_,
    map_filled_of_given⟩
  · rw [load_write (readable_listForm spellable) enough, reread_listForm, ofDocument_listForm]
  · have listed := (Assoc.get?_eq_some_iff distinct).mpr member
    refine ⟨ofDocument_member listed, fun spellable unsplit room others enough => ?_⟩
    rw [load_write (readable_document spellable distinct unsplit listed others) enough, reread]
    refine ofDocument_member ?_
    rw [get?_rereadMembers, listed, Option.map_some, reread_listForm]

/-- A node with odd names, among them an empty child, a repeated one and one that is a lone surrogate, and a node
without children that is larger than any machine word. -/
def oddities : List Descriptor :=
  [{ name := "\"\\\n\u0000", type := " é ", parent := "", children := some ["", "a", "a", "😀", [.ofNat 0xD83D]],
      size := -7, unit := "\u007f", description := "null" },
    { name := "", type := "", parent := "😀", children := none, size := 1000000000000000000000000000000 }]

/-- A document that has other things beside its nodes. -/
def luggage : List (Text × Json) :=
  [("treenodes", .arr [.real (.ofDecimal false 1 (-7)), .null]), ("treeNodes", listForm oddities),
    ("", .obj [("treeNodes", .real .nan)])]

theorem oddities_survive :
    (∀ d ∈ oddities, d.Spellable) ∧ (luggage.map Prod.fst).Nodup ∧ (∀ entry ∈ luggage, entry.1.Unsplit) ∧
      (("treeNodes" : Text), listForm oddities) ∈ luggage ∧
      (Source.text (listForm oddities).write).load (some 3) = .ok (oddities.map filled) ∧
      (Source.text (Json.obj luggage).write).load (some 4) = .ok (oddities.map filled) ∧
      (oddities.take 1).map filled = oddities.take 1 := by
  have spellable : ∀ d ∈ oddities, d.Spellable := by
    have short : ∀ d ∈ oddities, (Numeral.natural d.size.natAbs).length ≤ Numeral.digitLimit := by decide +kernel
    have unsplit : ∀ d ∈ oddities, ∀ s ∈ d.texts, s.Unsplit := by decide +kernel
    exact fun d member => ⟨short d member, unsplit d member⟩
  have distinct : (luggage.map Prod.fst).Nodup := by decide
  have unsplit : ∀ entry ∈ luggage, entry.1.Unsplit := by
    simp only [luggage, List.forall_mem_cons, List.not_mem_nil, false_imp_iff, implies_true, and_true,
      Text.unsplit_ofString]
  have member : (("treeNodes" : Text), listForm oddities) ∈ luggage := .tail _ (.head _)
  have others : ∀ entry ∈ luggage, entry.1 ≠ "treeNodes" → Readable 1 entry.2 := by
    intro entry listed other
    simp only [luggage, List.mem_cons, List.not_mem_nil, or_false] at listed
    rcases listed with rfl | rfl | rfl
    · exact .arr (List.forall_mem_cons.mpr ⟨.real _, List.forall_mem_cons.mpr ⟨.null, fun _ none => nomatch none⟩⟩)
    · exact absurd rfl other
    · exact .obj (by decide) (List.forall_mem_singleton.mpr (Text.unsplit_ofString _))
        (List.forall_mem_singleton.mpr (.real _))
  obtain ⟨_, list, _, _⟩ := descriptors_survive oddities (some 3)
  obtain ⟨_, _, document, _⟩ := descriptors_survive oddities (some 4)
  exact ⟨spellable, distinct, unsplit, member, list spellable (by simp),
    (document luggage distinct member).2 spellable unsplit 1 others (by simp),
    (descriptors_survive (oddities.take 1) none).2.2.2 (by decide)⟩

end PayloadSchema.Descriptor
