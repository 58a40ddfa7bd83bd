import PayloadSchema.Proofs.Descriptor.Admission

/-! What is reported before linking. Each rule says what it means to break it, and a report has the broken rules in
the order in which the rules are looked at: none is left out and none is made up. Two gates stand between the rules
for one descriptor. What lies behind a gate counts as broken only where the gate is passed. -/
namespace PayloadSchema

/-- Of some rules in order, exactly the broken ones are reported. -/
structure ReportsExactly (rules : List Problem) (broken : Problem → Prop) (found : List Problem) : Prop where
  ordered : found.Sublist rules
  complete : ∀ p, p ∈ found ↔ broken p

namespace ReportsExactly

variable {rules found : List Problem} {broken : Problem → Prop}

theorem eq_nil_iff (reports : ReportsExactly rules broken found) : found = [] ↔ ∀ p, ¬ broken p := by
  simp only [List.eq_nil_iff_forall_not_mem, reports.complete]

end ReportsExactly

theorem Problem.reportIf_sublist (condition : Bool) (p : Problem) : (reportIf condition p).Sublist [p] := by
  cases condition <;> simp [reportIf]

/-- A stage with one rule reports it exactly when its condition says that it is broken. -/
theorem reports_one {condition : Bool} {rule : Problem} {broken : Problem → Prop} (only : ∀ p, broken p → p = rule)
    (meaning : condition ↔ broken rule) : ReportsExactly [rule] broken (Problem.reportIf condition rule) := by
  refine ⟨Problem.reportIf_sublist _ _, fun p => ?_⟩
  rw [Problem.mem_reportIf, meaning]
  exact ⟨fun ⟨held, same⟩ => same ▸ held, fun held => ⟨only p held ▸ held, only p held⟩⟩

/-- The reports on some descriptors one after the other, each of them exact. -/
def ReportsEach (rules : Descriptor → List Problem) (broken : Descriptor → Problem → Prop) (ds : List Descriptor)
    (found : List Problem) : Prop :=
  ∃ parts, List.Forall₂ (fun d part => ReportsExactly (rules d) (broken d) part) ds parts ∧ found = parts.flatten

theorem reports_each {α : Type} {rules : Descriptor → List Problem} {broken : Descriptor → Problem → Prop}
    (entries : List α) (of : α → Descriptor) (report : α → List Problem)
    (each : ∀ entry ∈ entries, ReportsExactly (rules (of entry)) (broken (of entry)) (report entry)) :
    ReportsEach rules broken (entries.map of) (entries.flatMap report) := by
  refine ⟨entries.map report, ?_, List.flatMap_def⟩
  exact List.forall₂_map_left_iff.mpr (List.forall₂_map_right_iff.mpr (List.forall₂_same.mpr each))

section
variable {rules : Descriptor → List Problem} {broken : Descriptor → Problem → Prop} {ds : List Descriptor}
  {found : List Problem}

/-- What is reported is what some descriptor breaks. -/
theorem mem_reports_each (reports : ReportsEach rules broken ds found) {p : Problem} :
    p ∈ found ↔ ∃ d ∈ ds, broken d p := by
  obtain ⟨parts, each, rfl⟩ := reports
  induction each with
  | nil => simp
  | cons here _ ih => rw [List.flatten_cons, List.mem_append, here.complete, ih, List.exists_mem_cons_iff]

theorem reports_each_nil_iff (reports : ReportsEach rules broken ds found) :
    found = [] ↔ ∀ d ∈ ds, ∀ p, ¬ broken d p := by
  rw [List.eq_nil_iff_forall_not_mem]
  simp only [mem_reports_each reports, not_exists, not_and]
  exact ⟨fun none d member p => none p d member, fun none p d member => none d member p⟩

end

namespace Descriptor

variable {limits : Limits} {kind : NodeType} {d : Descriptor} {ds : List Descriptor} {p : Problem}

/-- The rules for one descriptor, in the order in which they are looked at. -/
def nodeRules (limits : Limits) (d : Descriptor) : List Problem :=
  [.unnamed, .untyped, .unknownType d.type, .unconnected d.name, .primitiveWithChildren d.name,
    .objectWithoutChildren d.name, .arrayChildren d.name, .arraySize d.name limits.givenSize, .ownChild d.name,
    .parentAsChild d.name]

/-- The first gate: name and type can be used. -/
structure Identified (d : Descriptor) (kind : NodeType) : Prop where
  named : d.name ≠ []
  declared : d.Declares kind

/-- The second gate: the descriptor has children or a parent. -/
structure Connected (d : Descriptor) (kind : NodeType) : Prop extends Identified d kind where
  held : d.childNames ≠ [] ∨ d.parent ≠ []

/-- The rules that a descriptor breaks on its own. -/
inductive Breaks (limits : Limits) (d : Descriptor) : Problem → Prop where
  | unnamed (empty : d.name = []) : Breaks limits d .unnamed
  | untyped (empty : d.type = []) : Breaks limits d .untyped
  | unknownType (given : d.type ≠ []) (unknown : ∀ kind, ¬ d.Declares kind) : Breaks limits d (.unknownType d.type)
  | unconnected {kind : NodeType} (identified : Identified d kind) (barren : d.childNames = [])
      (orphan : d.parent = []) : Breaks limits d (.unconnected d.name)
  | primitiveWithChildren {kind : NodeType} (connected : Connected d kind) (primitive : kind.isPrimitive)
      (given : d.childNames ≠ []) : Breaks limits d (.primitiveWithChildren d.name)
  | objectWithoutChildren (connected : Connected d .object) (barren : d.childNames = []) :
      Breaks limits d (.objectWithoutChildren d.name)
  | arrayChildren (connected : Connected d .array) (several : d.childNames.length ≠ 1) :
      Breaks limits d (.arrayChildren d.name)
  | arraySize (connected : Connected d .array) (small : d.size < limits.minArraySize) :
      Breaks limits d (.arraySize d.name limits.givenSize)
  | ownChild {kind : NodeType} (connected : Connected d kind) (listed : d.name ∈ d.childNames) :
      Breaks limits d (.ownChild d.name)
  | parentAsChild {kind : NodeType} (connected : Connected d kind) (given : d.parent ≠ [])
      (listed : d.parent ∈ d.childNames) : Breaks limits d (.parentAsChild d.name)

theorem declares_unique {other : NodeType} (declared : d.Declares kind) (again : d.Declares other) : kind = other :=
  Option.some.inj ((kind_eq_some_iff.mpr declared).symm.trans (kind_eq_some_iff.mpr again))

theorem kind_eq_none_iff : d.kind? = none ↔ ∀ kind, ¬ d.Declares kind := by
  simp only [Option.eq_none_iff_forall_ne_some, ne_eq, kind_eq_some_iff]

theorem declared_typed (declared : d.Declares kind) : d.type ≠ [] := by
  intro empty
  have blank : NodeType.lookup [] = none := by decide
  have found := kind_eq_some_iff.mpr declared
  rw [kind?, empty, blank] at found
  cases found

/-- In front of the first gate only name and type are looked at. -/
theorem identity_reports (stopped : ∀ kind, ¬ Identified d kind) :
    ReportsExactly (nodeRules limits d) (Breaks limits d) d.identityProblems := by
  have beyond : ∀ {kind}, ¬ Connected d kind := fun connected => stopped _ connected.toIdentified
  have members : ∀ p, p ∈ d.identityProblems ↔
      (d.name = [] ∧ p = .unnamed) ∨ (d.type = [] ∧ p = .untyped) ∨
        ((d.type ≠ [] ∧ ∀ kind, ¬ d.Declares kind) ∧ p = .unknownType d.type) := by
    intro p
    by_cases empty : d.type = [] <;>
      simp [identityProblems, Problem.mem_reportIf, empty, kind_eq_none_iff]
  refine ⟨?_, fun p => ?_⟩
  · have second : (if d.type.isEmpty then [Problem.untyped]
        else Problem.reportIf d.kind?.isNone (.unknownType d.type)).Sublist
        [Problem.untyped, Problem.unknownType d.type] := by
      split
      · simp
      · exact (Problem.reportIf_sublist _ _).trans (List.sublist_append_right [Problem.untyped] _)
    exact ((Problem.reportIf_sublist _ _).append second).trans (List.sublist_append_left _ _)
  · rw [members]
    constructor
    · rintro (⟨empty, rfl⟩ | ⟨empty, rfl⟩ | ⟨⟨given, unknown⟩, rfl⟩)
      · exact .unnamed empty
      · exact .untyped empty
      · exact .unknownType given unknown
    · intro broken
      cases broken with
      | unnamed empty => exact .inl ⟨empty, rfl⟩
      | untyped empty => exact .inr (.inl ⟨empty, rfl⟩)
      | unknownType given unknown => exact .inr (.inr ⟨⟨given, unknown⟩, rfl⟩)
      | unconnected identified _ _ => exact absurd identified (stopped _)
      | primitiveWithChildren connected _ _ | objectWithoutChildren connected _ | arrayChildren connected _
      | arraySize connected _ | ownChild connected _ | parentAsChild connected _ _ => exact absurd connected beyond

/-- What is seen of the shape behind both gates. -/
theorem mem_shape (connected : Connected d kind) : p ∈ (d.normalizeAs kind).shapeProblems limits kind ↔
    (kind.isPrimitive ∧ d.childNames ≠ [] ∧ p = .primitiveWithChildren d.name) ∨
    (kind = .object ∧ d.childNames = [] ∧ p = .objectWithoutChildren d.name) ∨
    (kind = .array ∧ d.childNames.length ≠ 1 ∧ p = .arrayChildren d.name) ∨
    (kind = .array ∧ d.size < limits.minArraySize ∧ p = .arraySize d.name limits.givenSize) ∨
    (d.name ∈ d.childNames ∧ p = .ownChild d.name) ∨
    (d.parent ≠ [] ∧ d.parent ∈ d.childNames ∧ p = .parentAsChild d.name) := by
  have names : (d.normalizeAs kind).childNames = d.childNames := rfl
  have parent : (d.normalizeAs kind).hasParent = d.hasParent := rfl
  have same : (d.normalizeAs kind).name = d.name ∧ (d.normalizeAs kind).parent = d.parent := ⟨rfl, rfl⟩
  have size : (d.normalizeAs .array).size = d.size := rfl
  have held : (d.childNames.isEmpty && !d.hasParent) = false := by
    rcases connected.held with given | given <;> simp [hasParent, given]
  simp only [shapeProblems, names, parent, same, held, Bool.false_eq_true, if_false, List.mem_append,
    Problem.mem_reportIf]
  obtain rfl | other := eq_or_ne kind .array
  · simp [size, hasParent, and_assoc, or_assoc]
  · simp [other, hasParent, and_assoc, or_assoc]

theorem shape_ordered (limits : Limits) (kind : NodeType) (d : Descriptor) :
    (d.shapeProblems limits kind).Sublist (nodeRules limits d) := by
  have behind : (Problem.unconnected d.name :: (nodeRules limits d).drop 4).Sublist (nodeRules limits d) :=
    List.sublist_append_right [Problem.unnamed, .untyped, .unknownType d.type] _
  refine List.Sublist.trans ?_ behind
  simp only [shapeProblems]
  split
  · simp
  · refine .cons _ ?_
    have each := Problem.reportIf_sublist
    exact (((((each _ _).append (each _ _)).append (each _ _)).append (each _ _)).append (each _ _)).append (each _ _)

/-- Behind the first gate a descriptor without connection is told only that. -/
theorem unconnected_reports (identified : Identified d kind) (barren : d.childNames = []) (orphan : d.parent = []) :
    ReportsExactly (nodeRules limits d) (Breaks limits d) ((d.normalizeAs kind).shapeProblems limits kind) := by
  refine ⟨shape_ordered limits kind (d.normalizeAs kind), fun p => ?_⟩
  have stopped : ∀ {kind}, ¬ Connected d kind := fun connected =>
    connected.held.elim (fun given => given barren) fun given => given orphan
  have only : (d.normalizeAs kind).shapeProblems limits kind = [.unconnected d.name] := by
    have names : (d.normalizeAs kind).childNames = [] := barren
    have parent : (d.normalizeAs kind).hasParent = false := by simp [hasParent, normalizeAs, orphan]
    simp only [shapeProblems, names, parent]
    rfl
  rw [only, List.mem_singleton]
  constructor
  · rintro rfl
    exact .unconnected identified barren orphan
  · intro broken
    cases broken with
    | unconnected => rfl
    | unnamed empty => exact absurd empty identified.named
    | untyped empty => exact absurd empty (declared_typed identified.declared)
    | unknownType _ unknown => exact absurd identified.declared (unknown kind)
    | primitiveWithChildren connected _ _ | objectWithoutChildren connected _ | arrayChildren connected _
    | arraySize connected _ | ownChild connected _ | parentAsChild connected _ _ => exact absurd connected stopped

/-- Behind both gates the shape is looked at, every rule on its own. -/
theorem connected_reports (connected : Connected d kind) :
    ReportsExactly (nodeRules limits d) (Breaks limits d) ((d.normalizeAs kind).shapeProblems limits kind) := by
  refine ⟨shape_ordered limits kind (d.normalizeAs kind), fun p => ?_⟩
  have alone : ∀ {other}, d.Declares other → kind = other := declares_unique connected.declared
  rw [mem_shape connected]
  constructor
  · rintro (⟨primitive, given, rfl⟩ | ⟨rfl, barren, rfl⟩ | ⟨rfl, several, rfl⟩ | ⟨rfl, small, rfl⟩ |
      ⟨listed, rfl⟩ | ⟨given, listed, rfl⟩)
    · exact .primitiveWithChildren connected primitive given
    · exact .objectWithoutChildren connected barren
    · exact .arrayChildren connected several
    · exact .arraySize connected small
    · exact .ownChild connected listed
    · exact .parentAsChild connected given listed
  · intro broken
    cases broken with
    | unnamed empty => exact absurd empty connected.named
    | untyped empty => exact absurd empty (declared_typed connected.declared)
    | unknownType _ unknown => exact absurd connected.declared (unknown kind)
    | unconnected _ barren orphan => exact absurd connected.held (by simp [barren, orphan])
    | primitiveWithChildren behind primitive given => simp [alone behind.declared, primitive, given]
    | objectWithoutChildren behind barren => simp [alone behind.declared, barren]
    | arrayChildren behind several => simp [alone behind.declared, several]
    | arraySize behind small => simp [alone behind.declared, small]
    | ownChild _ listed => simp [listed]
    | parentAsChild _ given listed => simp [given, listed]

/-- One descriptor is reported exactly for the rules it breaks. -/
theorem inspect_reports (limits : Limits) (d : Descriptor) :
    ReportsExactly (nodeRules limits d) (Breaks limits d) (inspect limits d).2 := by
  unfold inspect
  cases found : d.kind? with
  | none => exact identity_reports fun kind identified => kind_eq_none_iff.mp found kind identified.declared
  | some kind =>
    have declared := kind_eq_some_iff.mp found
    by_cases named : d.name = []
    · have unclear : ¬ d.identityProblems.isEmpty := by simp [identityProblems, named, Problem.reportIf]
      simp only [unclear]
      exact identity_reports fun kind identified => identified.named named
    · have clear : d.identityProblems = [] := identity_eq_nil_iff.mpr ⟨named, by simp [found]⟩
      simp only [clear, List.isEmpty_nil, if_true]
      by_cases apart : d.childNames = [] ∧ d.parent = []
      · exact unconnected_reports ⟨named, declared⟩ apart.1 apart.2
      · exact connected_reports ⟨⟨named, declared⟩, not_and_or.mp apart⟩

theorem inspected_reports (limits : Limits) (ds : List Descriptor) :
    ReportsEach (nodeRules limits) (Breaks limits) ds ((ds.map (inspect limits)).flatMap Prod.snd) := by
  have each := reports_each ds id (fun d => (inspect limits d).2) fun d _ => inspect_reports limits d
  rwa [List.map_id, ← List.flatMap_map] at each

/-- The first members of the groups of descriptors whose names differ in letter case at most, in the order in which
these appear. Only groups with more than one member count. -/
structure FirstRepeated (ds firsts : List Descriptor) : Prop where
  first : ∀ d ∈ firsts, ds.find? (·.key = d.key) = some d
  groups : ∀ key, key ∈ firsts.map (·.key) ↔ 2 ≤ (ds.map (·.key)).count key
  ordered : firsts.Pairwise fun d e => ds.findIdx (·.key = d.key) < ds.findIdx (·.key = e.key)

/-- What is said of the descriptors without a parent: there has to be one, and it has to be an object. -/
inductive RootReport (ds : List Descriptor) : List Problem → Prop where
  | count (several : (ds.filter (·.parent = [])).length ≠ 1) : RootReport ds [.rootCount]
  | type {root : Descriptor} (alone : ds.filter (·.parent = []) = [root]) (other : ¬ root.Declares .object) :
      RootReport ds [.rootType]
  | fine {root : Descriptor} (alone : ds.filter (·.parent = []) = [root]) (object : root.Declares .object) :
      RootReport ds []

/-- What is said of the descriptors as a whole: repeated names, then the root. -/
def CollectionReport (ds : List Descriptor) (found : List Problem) : Prop :=
  ∃ firsts root, FirstRepeated ds firsts ∧ RootReport ds root ∧
    found = firsts.map (fun d => .repeatedName d.name) ++ root

/-- The descriptors behind some others that are the first of a repeated group. -/
structure FirstsBehind (before ds firsts : List Descriptor) : Prop where
  first : ∀ d ∈ firsts, (before ++ ds).find? (·.key = d.key) = some d
  behind : ∀ d ∈ firsts, before.length ≤ (before ++ ds).findIdx (·.key = d.key)
  groups : ∀ key, key ∈ firsts.map (·.key) ↔ key ∉ before.map (·.key) ∧ 2 ≤ ((before ++ ds).map (·.key)).count key
  ordered : firsts.Pairwise fun d e =>
    (before ++ ds).findIdx (·.key = d.key) < (before ++ ds).findIdx (·.key = e.key)

theorem count_keys (before rest : List Descriptor) (d : Descriptor) (fresh : d.key ∉ before.map (·.key)) :
    2 ≤ ((before ++ d :: rest).map (·.key)).count d.key ↔ d.key ∈ rest.map (·.key) := by
  rw [List.map_append, List.count_append, List.count_eq_zero_of_not_mem fresh, List.map_cons, List.count_cons_self,
    ← List.count_pos_iff]
  omega

theorem repeated_firsts (seen : List Text) (before ds : List Descriptor)
    (known : ∀ key, key ∈ seen ↔ key ∈ before.map (·.key)) :
    ∃ firsts, FirstsBehind before ds firsts ∧
      repeatedNames seen (ds.map fun d => (d.key, d.name)) = firsts.map fun d => .repeatedName d.name := by
  -- What has been looked at moves from the list to what stands before it, so their whole stays the same.
  induction ds generalizing seen before with
  | nil =>
    refine ⟨[], ⟨by simp, by simp, fun key => ?_, .nil⟩, rfl⟩
    simp only [List.map_nil, List.append_nil, List.not_mem_nil, false_iff, not_and]
    intro fresh
    simp [List.count_eq_zero_of_not_mem fresh]
  | cons d rest ih =>
    obtain ⟨firsts, ⟨first, behind, groups, ordered⟩, reported⟩ :=
      ih (d.key :: seen) (before ++ [d]) (by simp [known, or_comm])
    simp only [List.append_assoc, List.singleton_append] at first behind groups ordered
    have further : ∀ e ∈ firsts, before.length < (before ++ d :: rest).findIdx (·.key = e.key) := fun e member =>
      Nat.lt_of_lt_of_le (by simp) (behind e member)
    have keys : (rest.map fun d => (d.key, d.name)).map Prod.fst = rest.map (·.key) := by simp
    have others : ∀ key, key ∈ firsts.map (·.key) ↔
        key ≠ d.key ∧ key ∉ before.map (·.key) ∧ 2 ≤ ((before ++ d :: rest).map (·.key)).count key := by
      intro key
      rw [groups, List.map_append, List.mem_append, not_or, List.map_singleton, List.mem_singleton]
      tauto
    by_cases leads : d.key ∉ before.map (·.key) ∧ d.key ∈ rest.map (·.key)
    · obtain ⟨fresh, again⟩ := leads
      have absent : ∀ e ∈ before, ¬ e.key = d.key := fun e member same => fresh (same ▸ List.mem_map_of_mem member)
      have place : (before ++ d :: rest).findIdx (·.key = d.key) = before.length := by
        rw [List.findIdx_append, if_neg (by simpa [List.findIdx_lt_length] using absent), List.findIdx_cons]
        simp
      refine ⟨d :: firsts, ⟨?_, ?_, fun key => ?_, ?_⟩, ?_⟩
      · refine List.forall_mem_cons.mpr ⟨?_, first⟩
        rw [List.find?_append, List.find?_eq_none.mpr (by simpa using absent)]
        simp
      · exact List.forall_mem_cons.mpr ⟨Nat.le_of_eq place.symm, fun e member => Nat.le_of_lt (further e member)⟩
      · rw [List.map_cons, List.mem_cons, others]
        by_cases same : key = d.key
        · rw [same, count_keys before rest d fresh]
          simp only [true_or, fresh, not_false_eq_true, again, and_self]
        · simp [same]
      · exact .cons (fun e member => place ▸ further e member) ordered
      · have novel : seen.contains d.key = false := by simpa [known] using fresh
        have held : (rest.map (·.key)).contains d.key = true := by simpa using again
        rw [List.map_cons, repeatedNames, keys, novel, held, reported]
        rfl
    · refine ⟨firsts, ⟨first, fun e member => Nat.le_of_lt (further e member), fun key => ?_, ordered⟩, ?_⟩
      · rw [others]
        refine and_iff_right_of_imp ?_
        rintro ⟨fresh, crowded⟩ rfl
        exact leads ⟨fresh, (count_keys before rest d fresh).mp crowded⟩
      · have silent : (!seen.contains d.key && (rest.map (·.key)).contains d.key) = false := by
          simpa [known] using leads
        rw [List.map_cons, repeatedNames, keys, silent, reported]
        rfl

theorem collection_reports (ds : List Descriptor) : CollectionReport ds (collectionProblems ds) := by
  obtain ⟨firsts, ⟨first, _, groups, ordered⟩, reported⟩ := repeated_firsts [] [] ds (by simp)
  refine ⟨firsts, _, ⟨first, by simpa using groups, ordered⟩, ?_, congrArg (· ++ _) reported⟩
  rw [filter_parentless]
  split
  · rename_i root alone
    by_cases object : root.kind? = some .object
    · simp only [object, ne_eq, not_true_eq_false, decide_false]
      exact .fine alone (kind_eq_some_iff.mp object)
    · simp only [object, ne_eq, not_false_eq_true, decide_true]
      exact .type alone (mt kind_eq_some_iff.mpr object)
  · rename_i several
    exact .count fun one => several _ (List.length_eq_one_iff.mp one).choose_spec

end Descriptor

end PayloadSchema
