import PayloadSchema.Descriptor.Draft
import PayloadSchema.Descriptor.Loading
import PayloadSchema.Proofs.Descriptor.Admission

/-! Normal forms are fixed: looking at one again finds the same problems and leaves it as it is, for descriptors as
for drafts. Written as an object and read back, a normal form is itself, so nothing is lost between a tree and the
objects of its descriptors. -/
namespace PayloadSchema

namespace Descriptor

variable {limits : Limits} {d n : Descriptor} {ps : List Problem}

theorem normalizeAs_normalizeAs (d : Descriptor) (kind : NodeType) :
    (d.normalizeAs kind).normalizeAs kind = d.normalizeAs kind := by
  by_cases array : kind = .array <;> simp [normalizeAs, childNames, array]

theorem normal_normal (d : Descriptor) : d.normal.normal = d.normal := by
  rw [normal, normal_kind, normal, normalizeAs_normalizeAs]

/-- A normal form comes of a descriptor whose name and type can be used, and its problems are those of its shape. -/
theorem inspect_eq_some_iff : inspect limits d = (some n, ps) ↔
    ∃ kind, d.kind? = some kind ∧ d.identityProblems = [] ∧ n = d.normalizeAs kind ∧
      n.shapeProblems limits kind = ps := by
  unfold inspect
  constructor
  · intro looked
    cases found : d.kind? with
    | none => simp [found] at looked
    | some kind =>
      rw [found] at looked
      by_cases usable : d.identityProblems = []
      · simp only [usable, List.isEmpty_nil, if_true, Prod.mk.injEq, Option.some.injEq] at looked
        obtain ⟨rfl, shape⟩ := looked
        exact ⟨kind, rfl, usable, rfl, shape⟩
      · simp [usable] at looked
  · rintro ⟨kind, found, usable, rfl, rfl⟩
    simp [found, usable]

/-- What is looked at in normal form comes out as it was, with the problems it had. -/
theorem inspect_fixed (looked : inspect limits d = (some n, ps)) : inspect limits n = (some n, ps) := by
  obtain ⟨kind, found, usable, rfl, shape⟩ := inspect_eq_some_iff.mp looked
  exact inspect_eq_some_iff.mpr ⟨kind, found, usable, (normalizeAs_normalizeAs d kind).symm, shape⟩

/-- Descriptors that pass the rules pass them again in normal form, and stay as they are. -/
theorem validate_fixed {ds : List Descriptor} (admissible : ∀ d ∈ ds, Admissible limits d) (collected : Collected ds) :
    validate limits (ds.map normal) = (ds.map normal, []) := by
  have admitted : ∀ n ∈ ds.map normal, Admissible limits n :=
    List.forall_mem_map.mpr fun d member => admissible_normal (admissible d member)
  have unchanged : (ds.map normal).map normal = ds.map normal := by simp [normal_normal]
  refine Prod.ext ?_ (validate_accepts_iff.mpr ⟨admitted, collected_normal.mpr collected⟩)
  rw [validate_normal admitted, unchanged]

theorem readChildren_names (names : List Text) : readChildren (some (.arr (names.map .str))) = .ok (some names) := by
  have shown : (names.map Json.str).map Json.display = names := by
    rw [List.map_map]
    exact List.map_id names
  rw [readChildren, shown]

/-- A descriptor with none for its children where they are missing. -/
def filled (d : Descriptor) : Descriptor := { d with children := some d.childNames }

theorem filled_of_given {d : Descriptor} (given : d.children.isSome) : d.filled = d := by
  obtain ⟨names, listed⟩ := Option.isSome_iff_exists.mp given
  rw [filled, childNames, listed, Option.getD_some, ← listed]

theorem map_filled_of_given {ds : List Descriptor} (given : ∀ d ∈ ds, d.children.isSome) : ds.map filled = ds :=
  (List.map_congr_left fun d member => filled_of_given (given d member)).trans (List.map_id ds)

/-- The object form of a descriptor reads back as the descriptor, but that missing children have become none. -/
theorem ofJson_objectForm (d : Descriptor) : ofJson d.toJson = .ok d.filled := by
  simp [ofJson, toJson, filled, Assoc.get?, readChildren_names, readSize, fieldText, Json.display, Bind.bind,
    Except.bind, Pure.pure, Except.pure]

theorem ofItems_objectForms (ds : List Descriptor) : ofItems (ds.map toJson) = .ok (ds.map filled) := by
  induction ds with
  | nil => rfl
  | cons d rest ih => simp [ofItems, ofJson_objectForm, ih, Bind.bind, Except.bind, Pure.pure, Except.pure]

/-- A list of objects made from descriptors holds these descriptors, whatever the limit on nesting. -/
theorem load_objectForms {ds : List Descriptor} (given : ∀ d ∈ ds, d.children.isSome) (depthLimit : Option Nat) :
    (Source.value (.arr (ds.map toJson))).load depthLimit = .ok ds :=
  (ofItems_objectForms ds).trans (congrArg Except.ok (map_filled_of_given given))

end Descriptor

namespace Draft

variable {limits : Limits} {d n : Draft} {ps : List Problem}

theorem normalizeAs_normalizeAs (d : Draft) (kind : NodeType) :
    (d.normalizeAs kind).normalizeAs kind = d.normalizeAs kind := by
  by_cases array : kind = .array <;> simp [normalizeAs, childNames, array]

theorem inspect_eq_ok_iff : inspect limits d = .ok (some n, ps) ↔
    ∃ kind, NodeType.ofJson d.type = .ok (some kind) ∧ d.identityProblems (some kind) = [] ∧
      n = d.normalizeAs kind ∧ n.shapeProblems limits kind = .ok ps := by
  constructor
  · intro looked
    unfold inspect at looked
    cases read : NodeType.ofJson d.type with
    | error found => simp [read, Except.mapError, Bind.bind, Except.bind] at looked
    | ok kind? =>
      simp only [read, Except.mapError, Bind.bind, Except.bind, Pure.pure, Except.pure] at looked
      cases kind? with
      | none => simp at looked
      | some kind =>
        cases usable : d.identityProblems (some kind) with
        | cons p rest => simp [usable] at looked
        | nil =>
          cases shape : (d.normalizeAs kind).shapeProblems limits kind with
          | error found => simp [usable, shape] at looked
          | ok found =>
            simp only [usable, shape, Except.ok.injEq, Prod.mk.injEq, Option.some.injEq] at looked
            obtain ⟨rfl, rfl⟩ := looked
            exact ⟨kind, rfl, usable, rfl, shape⟩
  · rintro ⟨kind, read, usable, rfl, shape⟩
    simp [inspect, read, usable, shape, Except.mapError, Bind.bind, Except.bind, Pure.pure, Except.pure]

/-- What is looked at in normal form comes out as it was, with the problems it had. -/
theorem inspect_fixed (looked : inspect limits d = .ok (some n, ps)) : inspect limits n = .ok (some n, ps) := by
  obtain ⟨kind, read, usable, rfl, shape⟩ := inspect_eq_ok_iff.mp looked
  exact inspect_eq_ok_iff.mpr ⟨kind, read, usable, (normalizeAs_normalizeAs d kind).symm, shape⟩

end Draft

end PayloadSchema
