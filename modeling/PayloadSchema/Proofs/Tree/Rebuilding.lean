import PayloadSchema.Proofs.Descriptor.Normalization
import PayloadSchema.Proofs.Tree.Structure

/-! Building a tree from its own descriptors. A tree keeps the normal forms that it was built from; these pass the
rules unchanged, directly or by way of their objects, and so the same tree comes of them again. -/
namespace PayloadSchema.SchemaTree
open Descriptor

/-- Building looks at the normal forms and the problems of the first stages only. -/
theorem build_of_validate {limits : Limits} {ds es : List Descriptor} (same : validate limits ds = validate limits es) :
    build limits ds = build limits es := by
  have looked : examine limits ds = examine limits es := by rw [examine, examine, same]
  rw [build, build, looked]

/-- What a tree and its own descriptors have to do with each other. -/
structure Restored (t : SchemaTree) : Prop where
  /-- The descriptors pass the rules as they are. -/
  unchanged : validate t.limits t.descriptors = (t.descriptors, [])
  /-- They give the very same tree: the nodes with all that is in them, the root and the paths, and so the example
  and the schema, which are read off the tree. -/
  rebuilt : build t.limits t.descriptors = .ok (.built t)
  /-- So does the list of their objects, once it is loaded. -/
  reloaded : ∀ depthLimit, ∃ ds, (Source.value (.arr (t.descriptors.map toJson))).load depthLimit = .ok ds ∧
    build t.limits ds = .ok (.built t)

theorem Built.restored {t : SchemaTree} (built : t.Built) : Restored t := by
  obtain ⟨limits, ds, ran⟩ := built
  obtain ⟨_, _, _, _, grown⟩ := grown_of_build ran
  have kept : t.limits = limits ∧ t.descriptors = ds.map normal := by
    rw [grown.built]
    exact ⟨rfl, rfl⟩
  have forms := forms_normal.mp grown.forms
  have admissible : ∀ d ∈ ds, Admissible limits d := fun _ => forms.admissible
  have unchanged : validate limits (ds.map normal) = (ds.map normal, []) := validate_fixed admissible forms.collected
  have passed : validate limits ds = (ds.map normal, []) :=
    Prod.ext (validate_normal admissible) (validate_accepts_iff.mpr ⟨admissible, forms.collected⟩)
  have rebuilt : build limits (ds.map normal) = .ok (.built t) :=
    (build_of_validate (unchanged.trans passed.symm)).trans ran
  have listed : ∀ d ∈ ds.map normal, d.children.isSome := List.forall_mem_map.mpr fun _ _ => rfl
  rw [← kept.1, ← kept.2] at unchanged rebuilt
  rw [← kept.2] at listed
  exact ⟨unchanged, rebuilt, fun depthLimit => ⟨_, load_objectForms listed depthLimit, rebuilt⟩⟩

/-- Normal forms are fixed, and a tree is restored from its own descriptors. The first two statements are for
descriptors and for drafts, whose fields hold values of any kind. -/
theorem normal_forms_restore (limits : Limits) :
    (∀ d n ps, Descriptor.inspect limits d = (some n, ps) → Descriptor.inspect limits n = (some n, ps)) ∧
      (∀ d n ps, Draft.inspect limits d = .ok (some n, ps) → Draft.inspect limits n = .ok (some n, ps)) ∧
      ∀ t : SchemaTree, t.Built → Restored t :=
  ⟨fun _ _ _ => Descriptor.inspect_fixed, fun _ _ _ => Draft.inspect_fixed, fun _ => Built.restored⟩

/-- A lamp whose types are spelt oddly, with sizes where none belong and children left out. -/
def lamp : List Descriptor :=
  [{ name := "lamp", type := " OBJECT\t", children := some ["beams", "on"], size := 7 },
    { name := "beams", type := "Array", parent := "lamp", children := some ["beam"], size := 2 },
    { name := "beam", type := "Int ", parent := "beams", children := none, size := 12, unit := "lm" },
    { name := "on", type := "BOOLEAN", parent := "lamp", children := none }]

/-- A knob of a primitive type that lists a child, and its normal form. -/
def knob : Descriptor := { name := "knob", type := " Int ", parent := "lamp", children := some ["dial"], size := 9 }

/-- The lamp is restored from descriptors other than those it was given as, and a knob that is refused has a normal
form that is refused for the same reason. -/
theorem lamp_restored :
    Descriptor.inspect {} knob = (some { knob with size := -1 }, [.primitiveWithChildren "knob"]) ∧
      Descriptor.inspect {} { knob with size := -1 } =
        (some { knob with size := -1 }, [.primitiveWithChildren "knob"]) ∧
      Draft.inspect {} (Draft.ofDescriptor { knob with size := -1 }) =
        .ok (some (Draft.ofDescriptor { knob with size := -1 }), [.primitiveWithChildren "knob"]) ∧
      ∃ t, build {} lamp = .ok (.built t) ∧ t.descriptors ≠ lamp ∧ Restored t := by
  obtain ⟨descriptors, drafts, trees⟩ := normal_forms_restore {}
  have looked : Descriptor.inspect {} knob = (some { knob with size := -1 }, [.primitiveWithChildren "knob"]) := by
    decide +kernel
  obtain ⟨t, built, changed⟩ := built_with {} lamp (fun t => decide (t.descriptors = lamp)) false (by decide +kernel)
  refine ⟨looked, descriptors _ _ _ looked, drafts (Draft.ofDescriptor knob) _ _ ?_, t, built, by simpa using changed,
    trees t ⟨_, _, built⟩⟩
  rw [Draft.inspect_ofDescriptor, looked]
  rfl

end PayloadSchema.SchemaTree
