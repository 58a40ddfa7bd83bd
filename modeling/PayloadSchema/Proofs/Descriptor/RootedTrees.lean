import PayloadSchema.Proofs.Descriptor.Admission

/-! Descriptors that describe a rooted ordered tree. The definition speaks of names only: nothing in it comes from
linking or walking. It implies what is asked of each descriptor on its own, since a descriptor that is among its
own children, or whose parent is, would never reach the root. -/
namespace PayloadSchema.Descriptor

/-- The descriptors from which so many steps to the parent's name lead to one without a parent. -/
inductive Climbs (ds : List Descriptor) : Nat → Descriptor → Prop where
  | top {d : Descriptor} (member : d ∈ ds) (parentless : d.parent = []) : Climbs ds 0 d
  | up {k : Nat} {d e : Descriptor} (member : d ∈ ds) (named : d.parent = e.name) (above : Climbs ds k e) :
      Climbs ds (k + 1) d

/-- The descriptors describe a rooted ordered tree within the limits. -/
structure FormsTree (limits : Limits) (ds : List Descriptor) : Prop where
  named : ∀ d ∈ ds, d.name ≠ []
  typed : ∀ d ∈ ds, ∃ kind, d.Declares kind ∧ d.Shaped limits kind
  distinct : (ds.map key).Nodup
  rooted : ∃ root, ds.filter (·.parent = []) = [root] ∧ root.Declares .object
  listed : ∀ d ∈ ds, d.childNames.Nodup ∧ ∀ s ∈ d.childNames, ∃ e ∈ ds, e.name = s
  agree : ∀ d ∈ ds, ∀ e ∈ ds, e.name ∈ d.childNames ↔ e.parent = d.name
  climbs : ∀ d ∈ ds, ∃ k, k + 1 ≤ limits.maxDepth ∧ Climbs ds k d

variable {limits : Limits} {ds : List Descriptor} {d e : Descriptor} {j k : Nat}

theorem climbs_member (climbs : Climbs ds k d) : d ∈ ds := by
  cases climbs with
  | top member _ => exact member
  | up member _ _ => exact member

theorem names_distinct (distinct : (ds.map key).Nodup) : (ds.map (·.name)).Nodup := by
  have keyed : ds.map key = (ds.map (·.name)).map Text.lowercase := by simp [key, Function.comp_def]
  exact List.Nodup.of_map _ (keyed ▸ distinct)

theorem eq_of_name (distinct : (ds.map (·.name)).Nodup) (one : d ∈ ds) (other : e ∈ ds) (same : d.name = e.name) :
    d = e :=
  List.inj_on_of_nodup_map distinct one other same

/-- The number of steps to the top is determined, since names tell descriptors apart. -/
theorem climbs_unique (named : ∀ d ∈ ds, d.name ≠ []) (distinct : (ds.map (·.name)).Nodup)
    (first : Climbs ds j d) (second : Climbs ds k d) : j = k := by
  induction first generalizing k with
  | top _ parentless =>
    cases second with
    | top => rfl
    | up _ step above => exact absurd (step.symm.trans parentless) (named _ (climbs_member above))
  | up _ step above ih =>
    cases second with
    | top _ parentless => exact absurd (step.symm.trans parentless) (named _ (climbs_member above))
    | up _ again higher =>
      obtain rfl := eq_of_name distinct (climbs_member above) (climbs_member higher) (step.symm.trans again)
      rw [ih higher]

namespace FormsTree

variable (forms : FormsTree limits ds)
include forms

theorem names : (ds.map (·.name)).Nodup := names_distinct forms.distinct

theorem no_own_parent (member : d ∈ ds) : d.parent ≠ d.name := by
  intro own
  obtain ⟨k, _, climbs⟩ := forms.climbs d member
  have := climbs_unique forms.named forms.names climbs (.up member own climbs)
  omega

theorem no_mutual_parents (one : d ∈ ds) (other : e ∈ ds) (up : d.parent = e.name) : e.parent ≠ d.name := by
  intro down
  obtain ⟨k, _, climbs⟩ := forms.climbs d one
  have := climbs_unique forms.named forms.names climbs (.up one up (.up other down climbs))
  omega

theorem parent_known (member : d ∈ ds) (given : d.hasParent) : ∃ e ∈ ds, e.name = d.parent := by
  obtain ⟨k, _, climbs⟩ := forms.climbs d member
  cases climbs with
  | top _ parentless => exact absurd parentless (hasParent_iff.mp given)
  | up _ step above => exact ⟨_, climbs_member above, step.symm⟩

theorem root_alone : ∃ root, ds.filter (fun d => !d.hasParent) = [root] ∧ root.Declares .object := by
  rw [filter_parentless]
  exact forms.rooted

theorem admissible (member : d ∈ ds) : Admissible limits d := by
  refine ⟨forms.named d member, forms.typed d member, ?_, ?_, ?_⟩
  · by_contra apart
    obtain ⟨barren, orphan⟩ := not_or.mp apart
    obtain ⟨root, alone, object⟩ := forms.root_alone
    have listed : d ∈ ds.filter fun d => !d.hasParent := List.mem_filter.mpr ⟨member, by simpa using orphan⟩
    obtain rfl : d = root := by simpa [alone] using listed
    obtain ⟨kind, declared, shaped⟩ := forms.typed d member
    obtain rfl : kind = .object :=
      Option.some.inj ((kind_eq_some_iff.mpr declared).symm.trans (kind_eq_some_iff.mpr object))
    exact barren shaped
  · intro own
    exact forms.no_own_parent member ((forms.agree d member d member).mp own)
  · intro given listed
    obtain ⟨e, known, same⟩ := forms.parent_known member given
    exact forms.no_mutual_parents member known same.symm ((forms.agree d member e known).mp (same ▸ listed))

theorem collected : Collected ds := ⟨forms.distinct, forms.root_alone⟩

end FormsTree

theorem climbs_normal (climbs : Climbs ds k d) : Climbs (ds.map normal) k d.normal := by
  induction climbs with
  | top member parentless => exact .top (List.mem_map_of_mem member) parentless
  | @up k d e member named _ ih =>
    have step : d.normal.parent = e.normal.name := named
    exact .up (List.mem_map_of_mem member) step ih

theorem climbs_of_normal {n : Descriptor} (climbs : Climbs (ds.map normal) k n) :
    ∀ d ∈ ds, d.name = n.name → d.parent = n.parent → Climbs ds k d := by
  induction climbs with
  | top _ parentless => exact fun d member _ parent => .top member (parent.trans parentless)
  | up _ named above ih =>
    intro d member _ parent
    obtain ⟨e, known, same⟩ := List.mem_map.mp (climbs_member above)
    exact .up member (parent.trans (named.trans (same ▸ rfl))) (ih e known (same ▸ rfl) (same ▸ rfl))

theorem filter_normal (ds : List Descriptor) :
    (ds.map normal).filter (·.parent = []) = (ds.filter (·.parent = [])).map normal := by
  induction ds with
  | nil => rfl
  | cons d rest ih =>
    by_cases parentless : d.parent = [] <;> simp [parentless, ih]

/-- Normal forms describe a tree exactly when the descriptors do. -/
theorem forms_normal : FormsTree limits (ds.map normal) ↔ FormsTree limits ds := by
  have keys : (ds.map normal).map key = ds.map key := by simp [Function.comp_def]
  have typed : (∀ d ∈ ds.map normal, ∃ kind, d.Declares kind ∧ d.Shaped limits kind) ↔
      ∀ d ∈ ds, ∃ kind, d.Declares kind ∧ d.Shaped limits kind := by
    simp only [List.forall_mem_map, normal_declares]
    exact forall₂_congr fun d _ => exists_congr fun kind => and_congr_right shaped_normal
  have known : ∀ s, (∃ e ∈ ds.map normal, e.name = s) ↔ ∃ e ∈ ds, e.name = s := by simp
  constructor
  · intro forms
    obtain ⟨root, alone, object⟩ := forms.rooted
    rw [filter_normal] at alone
    obtain ⟨r, single, rfl⟩ := List.map_eq_singleton_iff.mp alone
    refine ⟨fun d member => ?_, typed.mp forms.typed, keys ▸ forms.distinct,
      ⟨r, single, (normal_declares r _).mp object⟩, fun d member => ?_, fun d one e other => ?_, fun d member => ?_⟩
    · exact forms.named d.normal (List.mem_map_of_mem member)
    · obtain ⟨once, listed⟩ := forms.listed d.normal (List.mem_map_of_mem member)
      exact ⟨once, fun s name => (known s).mp (listed s name)⟩
    · exact forms.agree d.normal (List.mem_map_of_mem one) e.normal (List.mem_map_of_mem other)
    · obtain ⟨k, bound, above⟩ := forms.climbs d.normal (List.mem_map_of_mem member)
      exact ⟨k, bound, climbs_of_normal above d member rfl rfl⟩
  · intro forms
    obtain ⟨root, alone, object⟩ := forms.rooted
    refine ⟨?_, typed.mpr forms.typed, keys ▸ forms.distinct,
      ⟨root.normal, by rw [filter_normal, alone, List.map_singleton], (normal_declares root _).mpr object⟩,
      ?_, ?_, ?_⟩ <;> simp only [List.forall_mem_map]
    · exact forms.named
    · intro d member
      obtain ⟨once, names⟩ := forms.listed d member
      exact ⟨once, fun s name => (known s).mpr (names s name)⟩
    · exact forms.agree
    · intro d member
      obtain ⟨k, bound, above⟩ := forms.climbs d member
      exact ⟨k, bound, climbs_normal above⟩

end PayloadSchema.Descriptor
