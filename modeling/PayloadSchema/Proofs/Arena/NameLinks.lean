import Mathlib.Data.List.Sigma
import PayloadSchema.Arena.Linking
import PayloadSchema.Proofs.Arena.LinkedTrees
import PayloadSchema.Proofs.Lists

/-! Linking by distinct names turns a name into the one position where it stands. No problem is found exactly when
every parent is known, no list of children repeats a name or has an unknown one, and no descriptor is linked to
itself; the children then keep their order. -/
namespace PayloadSchema.Linking
open Arena

variable {names : List Text} {s : Text} {i : Nat} {p : Position} {d : Descriptor}

theorem mem_positions : p ∈ positions names s ↔ ∃ i : Nat, names[i]? = some s ∧ (i : Position) = p := by
  simp only [positions, List.mem_map, List.mem_filter, List.mem_zipIdx_iff_getElem?, decide_eq_true_eq,
    Prod.exists]
  constructor
  · rintro ⟨name, i, ⟨found, rfl⟩, rfl⟩
    exact ⟨i, found, rfl⟩
  · rintro ⟨i, found, rfl⟩
    exact ⟨s, i, ⟨found, rfl⟩, rfl⟩

theorem positions_nodup : (positions names s).Nodup := by
  have numbered := (List.nodup_zipIdx_map_snd names).sublist
    ((List.filter_sublist (p := fun entry => decide (entry.1 = s))).map Prod.snd)
  simpa [positions, Function.comp_def] using
    numbered.map (f := fun i : Nat => (i : Position)) fun _ _ same => Int.ofNat.inj same

/-- A name stands at one position at most when names are distinct. -/
theorem positions_of_distinct (distinct : names.Nodup) (found : names[i]? = some s) :
    positions names s = [(i : Position)] := by
  have alone : ∀ p, p ∈ positions names s ↔ p ∈ [(i : Position)] := by
    intro p
    rw [mem_positions, List.mem_singleton]
    constructor
    · rintro ⟨j, again, rfl⟩
      obtain ⟨bound, at_i⟩ := List.getElem?_eq_some_iff.mp found
      obtain ⟨room, at_j⟩ := List.getElem?_eq_some_iff.mp again
      rw [(distinct.getElem_inj_iff).mp (at_j.trans at_i.symm)]
    · rintro rfl
      exact ⟨i, found, rfl⟩
  exact List.perm_singleton.mp
    ((List.perm_ext_iff_of_nodup positions_nodup (List.nodup_singleton _)).mpr fun p => alone p)

theorem positions_length_le (distinct : names.Nodup) (s : Text) : (positions names s).length ≤ 1 := by
  cases standing : positions names s with
  | nil => simp
  | cons p rest =>
    obtain ⟨i, found, _⟩ := mem_positions.mp (standing ▸ List.mem_cons_self : p ∈ positions names s)
    simp [← standing, positions_of_distinct distinct found]

/-- The parent is where its name stands. -/
theorem parent_eq_some_iff (distinct : names.Nodup) :
    (linksOf names d).parent = some p ↔
      d.hasParent ∧ ∃ i : Nat, names[i]? = some d.parent ∧ (i : Position) = p := by
  by_cases given : d.hasParent
  · simp only [linksOf, given, if_true, true_and]
    constructor
    · intro last
      exact mem_positions.mp (List.mem_of_getLast? last)
    · rintro ⟨i, found, rfl⟩
      rw [positions_of_distinct distinct found, List.getLast?_singleton]
  · simp [linksOf, given]

theorem parent_eq_none_iff (distinct : names.Nodup) :
    (linksOf names d).parent = none ↔ (d.hasParent → d.parent ∉ names) := by
  rw [← not_iff_not, ← ne_eq, Option.ne_none_iff_exists']
  simp only [parent_eq_some_iff distinct, not_forall, not_not]
  constructor
  · rintro ⟨p, given, i, found, _⟩
    exact ⟨given, List.mem_of_getElem? found⟩
  · rintro ⟨given, known⟩
    obtain ⟨i, found⟩ := List.mem_iff_getElem?.mp known
    exact ⟨i, given, i, found, rfl⟩

theorem mem_children : p ∈ (linksOf names d).children ↔
    ∃ i : Nat, ∃ s ∈ d.childNames, names[i]? = some s ∧ (i : Position) = p := by
  simp only [linksOf, List.mem_flatMap, List.mem_eraseDups, mem_positions]
  constructor
  · rintro ⟨s, listed, i, found, rfl⟩
    exact ⟨i, s, listed, found, rfl⟩
  · rintro ⟨i, s, listed, found, rfl⟩
    exact ⟨s, listed, i, found, rfl⟩

theorem children_inside (listed : p ∈ (linksOf names d).children) : Inside names.length p := by
  obtain ⟨i, s, _, found, rfl⟩ := mem_children.mp listed
  exact inside_iff.mpr ⟨i, (List.getElem?_eq_some_iff.mp found).1, rfl⟩

/-- As many children are found as are listed exactly when the list has no repetition and no unknown name. -/
theorem children_length_iff (distinct : names.Nodup) :
    (linksOf names d).children.length = d.childNames.length ↔
      d.childNames.Nodup ∧ ∀ s ∈ d.childNames, s ∈ names := by
  have small : ∀ s ∈ d.childNames.eraseDups, (positions names s).length ≤ 1 :=
    fun s _ => positions_length_le distinct s
  constructor
  · intro full
    have erased := eraseDups_length d.childNames
    have found := flatMap_length_le small
    simp only [linksOf] at full
    refine ⟨erased.2 (by omega), fun s listed => ?_⟩
    have one := flatMap_full small (by omega) s (List.mem_eraseDups.mpr listed)
    obtain ⟨p, standing⟩ := List.length_eq_one_iff.mp one
    obtain ⟨i, found, _⟩ := mem_positions.mp (standing ▸ List.mem_cons_self : p ∈ positions names s)
    exact List.mem_of_getElem? found
  · rintro ⟨once, known⟩
    have one : ∀ s ∈ d.childNames, (positions names s).length = 1 := by
      intro s listed
      obtain ⟨i, found⟩ := List.mem_iff_getElem?.mp (known s listed)
      rw [positions_of_distinct distinct found, List.length_singleton]
    simp only [linksOf, eraseDups_of_nodup once, List.length_flatMap]
    rw [List.map_congr_left one]
    simp

/-- Listed without repetition and known, the children stand in the order in which they are listed. -/
theorem children_in_order (distinct : names.Nodup) (once : d.childNames.Nodup)
    (known : ∀ s ∈ d.childNames, s ∈ names) :
    (linksOf names d).children = d.childNames.map fun s => (names.idxOf s : Position) := by
  have single : ∀ s ∈ d.childNames, positions names s = [(names.idxOf s : Position)] := by
    intro s listed
    have bound := List.idxOf_lt_length_iff.mpr (known s listed)
    exact positions_of_distinct distinct (by rw [List.getElem?_eq_getElem bound, List.getElem_idxOf bound])
  simp only [linksOf, eraseDups_of_nodup once]
  rw [List.flatMap_congr single, ← List.map_eq_flatMap]

/-- What the links of the descriptor at a position have to satisfy. -/
structure Resolved (names : List Text) (p : Position) (d : Descriptor) : Prop where
  parentKnown : d.hasParent → d.parent ∈ names
  notOwnParent : (linksOf names d).parent ≠ some p
  listedOnce : d.childNames.Nodup
  childrenKnown : ∀ s ∈ d.childNames, s ∈ names
  notOwnChild : p ∉ (linksOf names d).children

theorem problems_of_eq_nil_iff (distinct : names.Nodup) :
    problemsOf p d (linksOf names d) = [] ↔ Resolved names p d := by
  have parent := parent_eq_none_iff (d := d) distinct
  have children := children_length_iff (d := d) distinct
  simp only [problemsOf, List.append_eq_nil_iff, Problem.reportIf_eq_nil_iff, Bool.and_eq_false_iff,
    Option.isNone_eq_false_iff, Option.isSome_iff_ne_none, ne_eq, parent, decide_eq_false_iff_not, not_not,
    children, List.contains_eq_mem]
  constructor
  · rintro ⟨⟨⟨known, notOwn⟩, once, listed⟩, notChild⟩
    refine ⟨fun given => ?_, notOwn, once, listed, notChild⟩
    rcases known with known | orphan
    · by_contra unknown
      exact known fun _ => unknown
    · simp [orphan] at given
  · rintro ⟨known, notOwn, once, listed, notChild⟩
    refine ⟨⟨⟨?_, notOwn⟩, once, listed⟩, notChild⟩
    cases given : d.hasParent with
    | true => exact .inl fun unknown => unknown rfl (known given)
    | false => exact .inr rfl

theorem problems_eq_nil_iff {ds : List Descriptor} (distinct : (ds.map (·.name)).Nodup) :
    problems ds = [] ↔ ∀ (i : Nat) d, ds[i]? = some d → Resolved (ds.map (·.name)) i d := by
  simp only [problems, List.flatMap_eq_nil_iff, Prod.forall, List.mem_zipIdx_iff_getElem?,
    problems_of_eq_nil_iff distinct]
  exact ⟨fun each i d found => each d i found, fun each d i found => each i d found⟩

/-- The node that a descriptor of a known type becomes. -/
def linkedNode (names : List Text) (i : Nat) (d : Descriptor) : Node :=
  { toLinks := linksOf names d, index := i, descriptor := d, kind := d.kind?.getD .object }

/-- The nodes of some descriptors of known types. -/
def linkedNodes (ds : List Descriptor) : List Node := ds.mapIdx (linkedNode (ds.map (·.name)))

theorem link_succeeds {ds : List Descriptor} (typed : ∀ d ∈ ds, d.kind?.isSome) : link ds = .ok (linkedNodes ds) := by
  rw [link, linkedNodes, List.mapIdx_eq_zipIdx_map]
  apply mapM_succeeds ds.zipIdx
  intro entry member
  have known := typed entry.1 (List.mem_of_getElem? (List.mem_zipIdx_iff_getElem?.mp member))
  obtain ⟨kind, found⟩ := Option.isSome_iff_exists.mp known
  simp [nodeOf, linkedNode, found]

theorem linkedNodes_links (ds : List Descriptor) :
    (linkedNodes ds).map (·.toLinks) = ds.map (linksOf (ds.map (·.name))) := by
  simp [linkedNodes, linkedNode, List.ext_getElem_iff]

end PayloadSchema.Linking
