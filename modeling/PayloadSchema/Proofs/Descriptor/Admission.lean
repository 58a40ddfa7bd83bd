import PayloadSchema.Descriptor.Rules
import PayloadSchema.Proofs.Lists

/-! The rules before linking find no problem exactly when every descriptor is admissible on its own, names differ
in more than letter case, and one descriptor, an object, has no parent. The normal forms then differ from the
descriptors in nothing that linking looks at. -/
namespace PayloadSchema

/-- The name of a type, without white space around it and in small letters, is this type's label. -/
def Descriptor.Declares (d : Descriptor) (kind : NodeType) : Prop :=
  Text.lowercase (Text.trim d.type) = kind.label

theorem NodeType.ofLabel?_eq_some_iff {name : Text} {kind : NodeType} :
    ofLabel? name = some kind ↔ name = kind.label := by
  constructor
  · intro found
    unfold ofLabel? at found
    have labelled := List.find?_some found
    exact (of_decide_eq_true labelled).symm
  · rintro rfl
    exact ofLabel?_label kind

namespace Descriptor

variable {limits : Limits} {kind : NodeType} {d : Descriptor}

theorem kind_eq_some_iff : d.kind? = some kind ↔ d.Declares kind := by
  unfold kind? NodeType.lookup Declares
  exact NodeType.ofLabel?_eq_some_iff

/-- What a descriptor of some type has to list as its children, and how large it has to be. -/
def Shaped (limits : Limits) (d : Descriptor) : NodeType → Prop
  | .object => d.childNames ≠ []
  | .array => d.childNames.length = 1 ∧ limits.minArraySize ≤ d.size
  | _ => d.childNames = []

/-- What is asked of a descriptor on its own. -/
structure Admissible (limits : Limits) (d : Descriptor) : Prop where
  named : d.name ≠ []
  shaped : ∃ kind, d.Declares kind ∧ d.Shaped limits kind
  connected : d.childNames ≠ [] ∨ d.hasParent
  notOwnChild : d.name ∉ d.childNames
  parentNoChild : d.hasParent → d.parent ∉ d.childNames

/-- The normal form of a descriptor of a known type. -/
def normal (d : Descriptor) : Descriptor := d.normalizeAs (d.kind?.getD .object)

@[simp] theorem normal_name (d : Descriptor) : d.normal.name = d.name := rfl

@[simp] theorem normal_parent (d : Descriptor) : d.normal.parent = d.parent := rfl

@[simp] theorem normal_childNames (d : Descriptor) : d.normal.childNames = d.childNames := rfl

@[simp] theorem normal_type (d : Descriptor) : d.normal.type = d.type := rfl

@[simp] theorem normal_declares (d : Descriptor) (kind : NodeType) : d.normal.Declares kind ↔ d.Declares kind := by
  simp [Declares]

@[simp] theorem normal_kind (d : Descriptor) : d.normal.kind? = d.kind? := rfl

@[simp] theorem normal_key (d : Descriptor) : d.normal.key = d.key := rfl

@[simp] theorem normal_hasParent (d : Descriptor) : d.normal.hasParent = d.hasParent := rfl

theorem identity_eq_nil_iff : d.identityProblems = [] ↔ d.name ≠ [] ∧ d.kind?.isSome := by
  have blank : NodeType.lookup [] = none := by decide
  by_cases untyped : d.type = []
  · simp [identityProblems, kind?, untyped, blank]
  · simp [identityProblems, Problem.reportIf_eq_nil_iff, untyped, Option.isSome_iff_ne_none]

theorem shape_eq_nil_iff (limits : Limits) (kind : NodeType) (d : Descriptor) :
    (d.normalizeAs kind).shapeProblems limits kind = [] ↔
      d.Shaped limits kind ∧ (d.childNames ≠ [] ∨ d.hasParent) ∧ d.name ∉ d.childNames ∧
        (d.hasParent → d.parent ∉ d.childNames) := by
  have names : (d.normalizeAs kind).childNames = d.childNames := rfl
  have parent : (d.normalizeAs kind).hasParent = d.hasParent := rfl
  have size : (d.normalizeAs kind).size = if kind = .array then d.size else unsetSize := rfl
  have same : (d.normalizeAs kind).name = d.name ∧ (d.normalizeAs kind).parent = d.parent := ⟨rfl, rfl⟩
  simp only [shapeProblems, names, parent, size, same]
  split
  · rename_i apart
    simp only [Bool.and_eq_true, List.isEmpty_iff, Bool.not_eq_true'] at apart
    simp [apart]
  · rename_i connected
    have held : d.childNames ≠ [] ∨ d.hasParent := by
      by_contra apart
      simp only [not_or, ne_eq, not_not, Bool.not_eq_true] at apart
      simp [apart] at connected
    simp only [List.append_eq_nil_iff, Problem.reportIf_eq_nil_iff]
    cases kind <;> simp [Shaped, NodeType.isPrimitive, held, and_assoc]

/-- Nothing is wrong with a descriptor exactly when it is admissible. -/
theorem inspect_accepts_iff : (inspect limits d).2 = [] ↔ Admissible limits d := by
  have identity := identity_eq_nil_iff (d := d)
  constructor
  · intro accepted
    unfold inspect at accepted
    cases found : d.kind? with
    | none =>
      rw [found] at accepted identity
      have contradiction := identity.mp accepted
      simp at contradiction
    | some kind =>
      rw [found] at accepted identity
      by_cases known : d.identityProblems = []
      · simp only [known, List.isEmpty_nil, if_true] at accepted
        obtain ⟨shaped, connected, own, parent⟩ := (shape_eq_nil_iff limits kind d).mp accepted
        exact ⟨(identity.mp known).1, ⟨kind, kind_eq_some_iff.mp found, shaped⟩, connected, own, parent⟩
      · simp [known] at accepted
  · rintro ⟨named, ⟨kind, declared, shaped⟩, connected, own, parent⟩
    have found := kind_eq_some_iff.mpr declared
    have known : d.identityProblems = [] := identity.mpr ⟨named, by simp [found]⟩
    simpa [inspect, found, known] using (shape_eq_nil_iff limits kind d).mpr ⟨shaped, connected, own, parent⟩

theorem inspect_normal (admissible : Admissible limits d) : (inspect limits d).1 = some d.normal := by
  obtain ⟨kind, declared, _⟩ := admissible.shaped
  have found := kind_eq_some_iff.mpr declared
  have known : d.identityProblems = [] := identity_eq_nil_iff.mpr ⟨admissible.named, by simp [found]⟩
  simp [inspect, found, known, normal]

theorem shaped_normal {kind : NodeType} (declared : d.Declares kind) :
    d.normal.Shaped limits kind ↔ d.Shaped limits kind := by
  have size : d.normal.size = if kind = .array then d.size else unsetSize := by
    simp [normal, normalizeAs, kind_eq_some_iff.mpr declared]
  cases kind <;> simp [Shaped, size]

theorem admissible_normal (admissible : Admissible limits d) : Admissible limits d.normal := by
  obtain ⟨named, ⟨kind, declared, shaped⟩, connected, notOwnChild, parentNoChild⟩ := admissible
  exact ⟨named, ⟨kind, (normal_declares d kind).mpr declared, (shaped_normal declared).mpr shaped⟩, connected,
    notOwnChild, parentNoChild⟩

/-- No name is reported exactly when the keys that did not come before are distinct. -/
theorem repeated_eq_nil_iff (seen : List Text) (entries : List (Text × Text)) :
    repeatedNames seen entries = [] ↔ ((entries.map Prod.fst).filter (· ∉ seen)).Nodup := by
  induction entries generalizing seen with
  | nil => simp [repeatedNames]
  | cons entry rest ih =>
    obtain ⟨key, name⟩ := entry
    simp only [repeatedNames, List.append_eq_nil_iff, Problem.reportIf_eq_nil_iff, ih, List.map_cons]
    have same (settled : key ∈ seen ∨ key ∉ rest.map Prod.fst) :
        (rest.map Prod.fst).filter (· ∉ key :: seen) = (rest.map Prod.fst).filter (· ∉ seen) := by
      apply List.filter_congr
      intro k member
      simp only [List.mem_cons, not_or, decide_eq_decide]
      refine ⟨And.right, fun fresh => ⟨?_, fresh⟩⟩
      rintro rfl
      exact settled.elim fresh fun absent => absent member
    by_cases known : key ∈ seen
    · rw [same (.inl known), List.filter_cons_of_neg (by simpa using known)]
      simp [known]
    · rw [List.filter_cons_of_pos (by simpa using known), List.nodup_cons]
      by_cases again : key ∈ rest.map Prod.fst
      · simp [known, again]
      · rw [same (.inr again)]
        simp [again]

theorem hasParent_iff : d.hasParent ↔ d.parent ≠ [] := by simp [hasParent]

/-- The descriptors without a parent are those whose parent has no name. -/
theorem filter_parentless (ds : List Descriptor) : ds.filter (fun d => !d.hasParent) = ds.filter (·.parent = []) := by
  apply List.filter_congr
  intro d _
  rw [Bool.eq_iff_iff]
  simp [hasParent]

/-- What is asked of all descriptors together. -/
structure Collected (ds : List Descriptor) : Prop where
  distinct : (ds.map key).Nodup
  rooted : ∃ root, ds.filter (fun d => !d.hasParent) = [root] ∧ root.Declares .object

theorem collection_eq_nil_iff {ds : List Descriptor} : collectionProblems ds = [] ↔ Collected ds := by
  have distinct : repeatedNames [] (ds.map fun d => (d.key, d.name)) = [] ↔ (ds.map key).Nodup := by
    rw [repeated_eq_nil_iff]
    simp [Function.comp_def]
  simp only [collectionProblems, List.append_eq_nil_iff, distinct]
  constructor
  · rintro ⟨keys, rest⟩
    split at rest
    · rename_i root alone
      have object := (Problem.reportIf_eq_nil_iff _ _).mp rest
      exact ⟨keys, root, alone, kind_eq_some_iff.mp (by simpa using object)⟩
    · simp at rest
  · rintro ⟨keys, root, alone, object⟩
    refine ⟨keys, ?_⟩
    simp only [alone]
    exact (Problem.reportIf_eq_nil_iff _ _).mpr (by simpa using kind_eq_some_iff.mpr object)

theorem collected_normal {ds : List Descriptor} : Collected (ds.map normal) ↔ Collected ds := by
  have keys : (ds.map normal).map key = ds.map key := by simp [Function.comp_def]
  have roots : (ds.map normal).filter (fun d => !d.hasParent) = (ds.filter fun d => !d.hasParent).map normal := by
    simp [List.filter_map, Function.comp_def]
  constructor
  · rintro ⟨distinct, root, alone, object⟩
    rw [roots] at alone
    obtain ⟨d, single, rfl⟩ := List.map_eq_singleton_iff.mp alone
    exact ⟨keys ▸ distinct, d, single, object⟩
  · rintro ⟨distinct, root, alone, object⟩
    exact ⟨keys ▸ distinct, root.normal, by rw [roots, alone, List.map_singleton], object⟩

theorem looks_normal {ds : List Descriptor} (admissible : ∀ d ∈ ds, Admissible limits d) :
    (ds.map (inspect limits)).filterMap Prod.fst = ds.map normal := by
  rw [List.filterMap_map, ← List.filterMap_eq_map]
  exact List.filterMap_congr fun d member => inspect_normal (admissible d member)

/-- The rules before linking pass exactly the lists whose descriptors are admissible, each on its own and all
together. -/
theorem validate_accepts_iff {ds : List Descriptor} :
    (validate limits ds).2 = [] ↔ (∀ d ∈ ds, Admissible limits d) ∧ Collected ds := by
  have each : (ds.map (inspect limits)).flatMap Prod.snd = [] ↔ ∀ d ∈ ds, Admissible limits d := by
    simp [List.flatMap_eq_nil_iff, inspect_accepts_iff]
  unfold validate
  by_cases admissible : ∀ d ∈ ds, Admissible limits d
  · have clean := each.mpr admissible
    simp only [clean, List.isEmpty_nil, if_true, looks_normal admissible, collection_eq_nil_iff, collected_normal]
    exact ⟨fun collected => ⟨admissible, collected⟩, And.right⟩
  · have found := mt each.mp admissible
    rw [if_neg (by simpa using found)]
    simp [found, admissible]

theorem validate_normal {ds : List Descriptor} (admissible : ∀ d ∈ ds, Admissible limits d) :
    (validate limits ds).1 = ds.map normal := by
  unfold validate
  simp only [looks_normal admissible]
  split <;> rfl

end Descriptor

end PayloadSchema
