import PayloadSchema.Proofs.Descriptor.Breaches
import PayloadSchema.Proofs.Tree.Acceptance

/-! What a refused schema is told. The first stage that finds anything reports all of it, and nothing of the stages
behind it is said. What each stage has to find is told by names alone, for descriptors that need not come close to
a tree. -/
namespace PayloadSchema

/-- The stages that come before a stage. -/
def Stage.before : Stage → List Stage
  | .nodes => []
  | .collection => [.nodes]
  | .links => [.nodes, .collection]
  | .walk => [.nodes, .collection, .links]
  | .depth => [.nodes, .collection, .links, .walk]

namespace Descriptor

/-- The rules for the links of a descriptor, in the order in which they are looked at. That no descriptor is linked to
itself as a child is not among them: none that gets so far lists itself. -/
def linkRules (d : Descriptor) : List Problem := [.unknownParent d.parent, .ownParent d.name, .unknownChildren d.name]

/-- The rules that a descriptor breaks when it is linked to others. -/
inductive Dangles (ds : List Descriptor) (d : Descriptor) : Problem → Prop where
  | unknownParent (given : d.parent ≠ []) (unknown : ∀ e ∈ ds, e.name ≠ d.parent) :
      Dangles ds d (.unknownParent d.parent)
  | ownParent (own : d.parent = d.name) : Dangles ds d (.ownParent d.name)
  | unknownChild {s : Text} (listed : s ∈ d.childNames) (unknown : ∀ e ∈ ds, e.name ≠ s) :
      Dangles ds d (.unknownChildren d.name)
  | repeatedChild (again : ¬ d.childNames.Nodup) : Dangles ds d (.unknownChildren d.name)

/-- The descriptors that a descent reaches: those without a parent, and from each the ones that it lists and that
name it as their parent. -/
inductive Descended (ds : List Descriptor) : Descriptor → Prop where
  | top {d : Descriptor} (member : d ∈ ds) (parentless : d.parent = []) : Descended ds d
  | child {d e : Descriptor} (above : Descended ds d) (member : e ∈ ds) (listed : e.name ∈ d.childNames)
      (named : e.parent = d.name) : Descended ds e

/-- What a walk runs into: a child that names another parent, or a descriptor that is never reached. -/
inductive Strays (ds : List Descriptor) : Problem → Prop where
  | cyclic {d e : Descriptor} (above : Descended ds d) (member : e ∈ ds) (listed : e.name ∈ d.childNames)
      (other : e.parent ≠ d.name) : Strays ds .cyclic
  | unreached {d : Descriptor} (member : d ∈ ds) (never : ¬ Descended ds d) : Strays ds .unreached

/-- A descriptor stands on a level that is too deep. -/
inductive Exceeds (limits : Limits) (ds : List Descriptor) : Problem → Prop where
  | tooDeep {k : Nat} {d : Descriptor} (climbs : Climbs ds k d) (deep : limits.maxDepth < k + 1) :
      Exceeds limits ds (.tooDeep limits.givenDepth)

/-- What each stage reports, given that the stages before it have nothing to report. -/
def StageReport (limits : Limits) (ds : List Descriptor) : Stage → List Problem → Prop
  | .nodes => ReportsEach (nodeRules limits) (Breaks limits) ds
  | .collection => CollectionReport ds
  | .links => ReportsEach linkRules (Dangles ds) ds
  | .walk => ReportsExactly [.cyclic, .unreached] (Strays ds)
  | .depth => ReportsExactly [.tooDeep limits.givenDepth] (Exceeds limits ds)

/-- The report of the first stage that finds something, or a tree where all of them find nothing. -/
inductive Verdict (limits : Limits) (ds : List Descriptor) : Outcome → Prop where
  | rejected {stage : Stage} {found : List Problem}
      (earlier : ∀ other ∈ stage.before, StageReport limits ds other [])
      (report : StageReport limits ds stage found) (given : found ≠ []) : Verdict limits ds (.rejected found)
  | built {t : SchemaTree} (clean : ∀ stage, StageReport limits ds stage []) : Verdict limits ds (.built t)

variable {limits : Limits} {ds : List Descriptor} {d : Descriptor} {p : Problem} {stage : Stage} {found : List Problem}

theorem breaks_stage (broken : Breaks limits d p) : p.stage = .nodes := by
  cases broken <;> rfl

theorem dangles_stage (broken : Dangles ds d p) : p.stage = .links := by
  cases broken <;> rfl

theorem strays_stage (broken : Strays ds p) : p.stage = .walk := by
  cases broken <;> rfl

theorem exceeds_stage (broken : Exceeds limits ds p) : p.stage = .depth := by
  cases broken; rfl

/-- A stage reports nothing that another one looks for. -/
theorem report_stage (report : StageReport limits ds stage found) : ∀ p ∈ found, p.stage = stage := by
  intro p member
  cases stage with
  | nodes =>
    obtain ⟨d, _, broken⟩ := (mem_reports_each report).mp member
    exact breaks_stage broken
  | collection =>
    obtain ⟨firsts, root, _, rooted, rfl⟩ := report
    rcases List.mem_append.mp member with repeated | last
    · obtain ⟨d, _, rfl⟩ := List.mem_map.mp repeated
      rfl
    · cases rooted <;> simp_all [Problem.stage]
  | links =>
    obtain ⟨d, _, broken⟩ := (mem_reports_each report).mp member
    exact dangles_stage broken
  | walk => exact strays_stage ((report.complete p).mp member)
  | depth => exact exceeds_stage ((report.complete p).mp member)

theorem rejected_stage (report : StageReport limits ds stage found) (given : found ≠ []) :
    (Outcome.rejected found).stage? = some stage := by
  obtain ⟨first, rest, rfl⟩ := List.exists_cons_of_ne_nil given
  rw [Outcome.stage?, Outcome.problems, List.head?_cons, Option.map_some, report_stage report first List.mem_cons_self]

/-- All that is said is said by one stage. -/
theorem verdict_stage {outcome : Outcome} (verdict : Verdict limits ds outcome) :
    ∀ p ∈ outcome.problems, outcome.stage? = some p.stage := by
  cases verdict with
  | built _ => exact fun p none => absurd none List.not_mem_nil
  | rejected _ report given =>
    intro p member
    rw [rejected_stage report given, report_stage report p member]

theorem descended_member (descended : Descended ds d) : d ∈ ds := by
  cases descended with
  | top member _ | child _ member _ _ => exact member

end Descriptor

namespace SchemaTree
open Arena Descriptor Linking Walk

variable {limits : Limits} {ds : List Descriptor} {d e : Descriptor} {i j k : Nat} {p : Position} {w : Walk}

/-- What is wrong with the links of one descriptor is exactly what dangles. -/
theorem problems_of_report (distinct : (ds.map (·.name)).Nodup) (found : ds[i]? = some d) (named : d.name ≠ [])
    (apart : d.name ∉ d.childNames) :
    ReportsExactly (linkRules d) (Dangles ds d) (problemsOf i d (linksOf (ds.map (·.name)) d)) := by
  have unknown : (linksOf (ds.map (·.name)) d).parent.isNone && d.hasParent ↔
      d.parent ≠ [] ∧ ∀ e ∈ ds, e.name ≠ d.parent := by
    rw [Bool.and_eq_true, Option.isNone_iff_eq_none, parent_eq_none_iff distinct, and_comm, hasParent_iff]
    simp +contextual
  have own : (linksOf (ds.map (·.name)) d).parent = some (i : Position) ↔ d.parent = d.name := by
    rw [← parentAt_nameLinks found, parentAt_position distinct found found, hasParent_iff, eq_comm (a := d.name)]
    exact and_iff_right_of_imp fun same => same ▸ named
  have children : (linksOf (ds.map (·.name)) d).children.length ≠ d.childNames.length ↔
      (∃ s ∈ d.childNames, ∀ e ∈ ds, e.name ≠ s) ∨ ¬ d.childNames.Nodup := by
    rw [ne_eq, children_length_iff distinct, not_and_or, or_comm]
    simp
  -- A link to itself as a child would be one by name, which the first stage has ruled out.
  have apart : (linksOf (ds.map (·.name)) d).children.contains (i : Position) = false := by
    rw [← Bool.not_eq_true, List.contains_iff_mem, ← childrenAt_nameLinks found, childAt_iff found found]
    exact apart
  have shape := problemsOf.eq_def (i : Position) d (linksOf (ds.map (·.name)) d)
  rw [apart, show Problem.reportIf false (.selfLink d.name) = [] from rfl, List.append_nil] at shape
  have each := Problem.reportIf_sublist
  refine ⟨shape ▸ ((each _ _).append (each _ _)).append (each _ _), fun p => ?_⟩
  simp only [shape, List.mem_append, Problem.mem_reportIf, unknown, own, children, decide_eq_true_eq]
  constructor
  · rintro ((⟨⟨given, unknown⟩, rfl⟩ | ⟨same, rfl⟩) | ⟨⟨s, listed, unknown⟩ | again, rfl⟩)
    · exact .unknownParent given unknown
    · exact .ownParent same
    · exact .unknownChild listed unknown
    · exact .repeatedChild again
  · intro dangles
    cases dangles with
    | unknownParent given unknown => exact .inl (.inl ⟨⟨given, unknown⟩, rfl⟩)
    | ownParent same => exact .inl (.inr ⟨same, rfl⟩)
    | unknownChild listed unknown => exact .inr ⟨.inl ⟨_, listed, unknown⟩, rfl⟩
    | repeatedChild again => exact .inr ⟨.inr again, rfl⟩

/-- Where names are distinct and none lists itself, linking reports exactly what dangles. -/
theorem links_report (distinct : (ds.map (·.name)).Nodup) (named : ∀ d ∈ ds, d.name ≠ [])
    (apart : ∀ d ∈ ds, d.name ∉ d.childNames) : ReportsEach linkRules (Dangles ds) ds (Linking.problems ds) := by
  have each : ReportsEach linkRules (Dangles ds) (ds.zipIdx.map Prod.fst) (Linking.problems ds) := by
    refine reports_each ds.zipIdx Prod.fst _ fun entry member => ?_
    have found := List.mem_zipIdx_iff_getElem?.mp member
    have known := List.mem_of_getElem? found
    exact problems_of_report distinct found (named entry.1 known) (apart entry.1 known)
  rwa [List.zipIdx_map_fst] at each

theorem names_normal (ds : List Descriptor) : (ds.map normal).map (·.name) = ds.map (·.name) := by
  simp [Function.comp_def]

theorem problems_normal (ds : List Descriptor) : Linking.problems (ds.map normal) = Linking.problems ds := by
  rw [Linking.problems, List.zipIdx_map, List.flatMap_map, names_normal]
  rfl

theorem nameLinks_normal (ds : List Descriptor) : nameLinks (ds.map normal) = nameLinks ds := by
  rw [nameLinks, List.map_map, names_normal]
  rfl

theorem collection_normal (ds : List Descriptor) : collectionProblems (ds.map normal) = collectionProblems ds := by
  have entries : (ds.map normal).map (fun d => (d.key, d.name)) = ds.map fun d => (d.key, d.name) := by
    simp [Function.comp_def]
  have roots : (ds.map normal).filter (fun d => !d.hasParent) = (ds.filter fun d => !d.hasParent).map normal := by
    simp [List.filter_map, Function.comp_def]
  rw [collectionProblems, collectionProblems, entries, roots]
  cases ds.filter fun d => !d.hasParent with
  | nil => rfl
  | cons root rest => cases rest <;> rfl

/-- What a walk can reach are the descriptors that a descent by names does. -/
theorem reached_iff_descended (linkable : Linkable ds) {root : Nat} {r : Descriptor} (top : ds[root]? = some r)
    (orphan : ¬ r.hasParent) (found : ds[i]? = some d) : Reached (nameLinks ds) root i ↔ Descended ds d := by
  have start := inside_nameLinks.mpr ⟨root, r, top, rfl⟩
  constructor
  · generalize position : (i : Position) = p
    intro reached
    induction reached generalizing i d with
    | root =>
      obtain rfl : i = root := Int.ofNat.inj position
      obtain rfl := Option.some.inj (found.symm.trans top)
      exact .top (List.mem_of_getElem? found) (by simpa [hasParent_iff] using orphan)
    | @child x c above listed step ih =>
      subst position
      obtain ⟨n, e, standing, rfl⟩ := inside_nameLinks.mp (reached_inside (nameLinks_closed ds) start above)
      exact .child (ih standing rfl) (List.mem_of_getElem? found) ((childAt_iff standing found).mp listed)
        ((parentAt_of_named linkable standing found).mp step)
  · intro descended
    induction descended generalizing i with
    | top _ parentless =>
      rw [top_position linkable top orphan found parentless]
      exact .root
    | @child d e above member listed step ih =>
      obtain ⟨n, standing⟩ := List.mem_iff_getElem?.mp (descended_member above)
      exact .child (ih standing) ((childAt_iff standing found).mpr listed)
        ((parentAt_of_named linkable standing found).mpr step)

section Walking
variable {root : Nat} {r : Descriptor} (linkable : Linkable ds) (top : ds[root]? = some r) (orphan : ¬ r.hasParent)
include linkable top orphan

theorem top_parentless : parentAt (nameLinks ds) root = none :=
  (parentless_iff (linkable.resolved root r top) (names_distinct linkable.collected.distinct) top).mpr orphan

theorem visited_iff_descended (sound : w.Sound (nameLinks ds) root) (finished : w.stack = []) :
    p ∈ w.visited ↔ ∃ i d, ds[i]? = some d ∧ ((i : Nat) : Position) = p ∧ Descended ds d := by
  have start := inside_nameLinks.mpr ⟨root, r, top, rfl⟩
  rw [mem_visited_iff sound finished]
  constructor
  · intro reached
    obtain ⟨i, d, found, rfl⟩ := inside_nameLinks.mp (reached_inside (nameLinks_closed ds) start reached)
    exact ⟨i, d, found, rfl, (reached_iff_descended linkable top orphan found).mp reached⟩
  · rintro ⟨i, d, found, rfl, descended⟩
    exact (reached_iff_descended linkable top orphan found).mpr descended

/-- A position hands on all of its children exactly when each names it as its parent. -/
theorem below_eq_children_iff (found : ds[i]? = some d) :
    below (nameLinks ds) root i = childrenAt (nameLinks ds) i ↔
      ∀ e ∈ ds, e.name ∈ d.childNames → e.parent = d.name := by
  have parentless := top_parentless linkable top orphan
  rw [below, heirs_eq_self_iff, and_iff_right (children_nodup linkable found)]
  constructor
  · intro admitted e member listed
    obtain ⟨j, standing⟩ := List.mem_iff_getElem?.mp member
    have step := (admitted j ((childAt_iff found standing).mpr listed)).2
    exact (parentAt_of_named linkable found standing).mp step
  · intro named c listed
    have inside := inside_nameLinks.mpr ⟨i, d, found, rfl⟩
    obtain ⟨j, e, standing, rfl⟩ := inside_nameLinks.mp (closed_children (nameLinks_closed ds) inside listed)
    have step := (parentAt_of_named linkable found standing).mpr
      (named e (List.mem_of_getElem? standing) ((childAt_iff found standing).mp listed))
    exact ⟨fun isRoot => by simp [isRoot, parentless] at step, step⟩

/-- A finished walk has skipped something exactly when a child of a reached descriptor names another parent. -/
theorem cyclic_iff (sound : w.Sound (nameLinks ds) root) (finished : w.stack = []) :
    w.cyclic ↔ ∃ d, Descended ds d ∧ ∃ e ∈ ds, e.name ∈ d.childNames ∧ e.parent ≠ d.name := by
  have visited := fun p => visited_iff_descended (p := p) linkable top orphan sound finished
  have skips : ∀ {i : Nat} {d}, ds[i]? = some d → (below (nameLinks ds) root i ≠ childrenAt (nameLinks ds) i ↔
      ∃ e ∈ ds, e.name ∈ d.childNames ∧ e.parent ≠ d.name) := fun found => by
    rw [ne_eq, below_eq_children_iff linkable top orphan found]
    push Not
    rfl
  rw [sound.noticed, top_parentless linkable top orphan, Option.isSome_none]
  simp only [Bool.false_eq_true, false_or]
  constructor
  · rintro ⟨x, seen, skipped⟩
    obtain ⟨i, d, found, rfl, descended⟩ := (visited x).mp seen
    exact ⟨d, descended, (skips found).mp skipped⟩
  · rintro ⟨d, descended, strayed⟩
    obtain ⟨i, found⟩ := List.mem_iff_getElem?.mp (descended_member descended)
    exact ⟨i, (visited i).mpr ⟨i, d, found, rfl, descended⟩, (skips found).mpr strayed⟩

/-- A finished walk has visited everything exactly when every descriptor is reached. -/
theorem visits_all_iff (sound : w.Sound (nameLinks ds) root) (finished : w.stack = []) :
    w.visitedCount = ds.length ↔ ∀ d ∈ ds, Descended ds d := by
  have start := inside_nameLinks.mpr ⟨root, r, top, rfl⟩
  have size : (nameLinks ds).length = ds.length := List.length_map _
  rw [← size, visited_count_iff (nameLinks_closed ds) start sound finished]
  constructor
  · intro every d member
    obtain ⟨i, found⟩ := List.mem_iff_getElem?.mp member
    exact (reached_iff_descended linkable top orphan found).mp (every i (inside_nameLinks.mpr ⟨i, d, found, rfl⟩))
  · intro every p inside
    obtain ⟨i, d, found, rfl⟩ := inside_nameLinks.mp inside
    exact (reached_iff_descended linkable top orphan found).mpr (every d (List.mem_of_getElem? found))

/-- A finished walk reports exactly what it runs into. -/
theorem walk_reports (sound : w.Sound (nameLinks ds) root) (finished : w.stack = []) :
    ReportsExactly [.cyclic, .unreached] (Strays ds) (walkProblems ds.length w) := by
  have unreached : w.visitedCount ≠ ds.length ↔ ∃ d ∈ ds, ¬ Descended ds d := by
    rw [ne_eq, visits_all_iff linkable top orphan sound finished]
    push Not
    rfl
  have each := Problem.reportIf_sublist
  refine ⟨(each _ _).append (each _ _), fun p => ?_⟩
  simp only [walkProblems, List.mem_append, Problem.mem_reportIf, cyclic_iff linkable top orphan sound finished,
    decide_eq_true_eq, unreached]
  constructor
  · rintro (⟨⟨d, descended, e, member, listed, other⟩, rfl⟩ | ⟨⟨d, member, never⟩, rfl⟩)
    · exact .cyclic descended member listed other
    · exact .unreached member never
  · intro strays
    cases strays with
    | cyclic descended member listed other => exact .inl ⟨⟨_, descended, _, member, listed, other⟩, rfl⟩
    | unreached member never => exact .inr ⟨⟨_, member, never⟩, rfl⟩

/-- Of a tree the depth is reported exactly when some level is too deep. -/
theorem depth_reports {nodes : List Node} {order : List Position} {places : List (Position × Place)}
    (links : nodes.map (·.toLinks) = nameLinks ds) (first : nodes.findIdx? (·.isRoot) = some root)
    (surveyed : Surveyed nodes root order w places) (tree : IsTree (nameLinks ds) root) :
    ReportsExactly [.tooDeep limits.givenDepth] (Exceeds limits ds)
      (depthProblems limits (placedNodes nodes places)) := by
  have size : nodes.length = (nameLinks ds).length := by rw [← links, List.length_map]
  have closed : Closed (nodes.map (·.toLinks)) := links ▸ nameLinks_closed ds
  have shallow := shallow_iff closed first surveyed (links ▸ tree) limits.maxDepth
  have fine : depthProblems limits (placedNodes nodes places) = [] ↔
      ∀ k d, Climbs ds k d → k + 1 ≤ limits.maxDepth := by
    rw [depth_eq_nil_iff, shallow, links, size]
    constructor
    · intro every k d climbs
      obtain ⟨i, found⟩ := List.mem_iff_getElem?.mp (climbs_member climbs)
      exact every i k (inside_nameLinks.mpr ⟨i, d, found, rfl⟩)
        ((ascends_iff_climbs linkable top orphan found).mpr climbs)
    · intro every p k inside above
      obtain ⟨i, d, found, rfl⟩ := inside_nameLinks.mp inside
      exact every k d ((ascends_iff_climbs linkable top orphan found).mp above)
  refine reports_one (fun p exceeds => by cases exceeds; rfl) ?_
  rw [← Bool.not_eq_false, ← Problem.reportIf_eq_nil_iff _ (.tooDeep limits.givenDepth)]
  refine (not_congr fine).trans ⟨fun some => ?_, fun ⟨climbs, deep⟩ every => ?_⟩
  · push Not at some
    obtain ⟨k, d, climbs, deep⟩ := some
    exact .tooDeep climbs deep
  · exact absurd (every _ _ climbs) (by omega)

end Walking

/-- The stages before linking report what they have to, and hand on normal forms. -/
theorem validate_report (limits : Limits) (ds : List Descriptor) :
    StageReport limits ds .nodes (validate limits ds).2 ∧ (validate limits ds).2 ≠ [] ∨
      (∀ d ∈ ds, Admissible limits d) ∧ StageReport limits ds .nodes [] ∧
        validate limits ds = (ds.map normal, collectionProblems ds) := by
  have nodes := inspected_reports limits ds
  by_cases clean : (ds.map (inspect limits)).flatMap Prod.snd = []
  · right
    have admissible : ∀ d ∈ ds, Admissible limits d := by
      simpa [List.flatMap_eq_nil_iff, inspect_accepts_iff] using clean
    refine ⟨admissible, clean ▸ nodes, ?_⟩
    simp only [validate, clean, List.isEmpty_nil, if_true, looks_normal admissible, collection_normal]
  · left
    have found : (validate limits ds).2 = (ds.map (inspect limits)).flatMap Prod.snd := by
      rw [validate, if_neg (by simpa using clean)]
    rw [found]
    exact ⟨nodes, clean⟩

theorem root_by_links (nodes : List Node) :
    nodes.findIdx? (·.isRoot) = (nodes.map (·.toLinks)).findIdx? (·.parent.isNone) := by
  rw [List.findIdx?_map]
  rfl

/-- Growing from descriptors that passed the stages before gives a tree or the report of the walk or of the depth. -/
theorem grow_verdict (linkable : Linkable ds) (clean : ∀ stage ∈ Stage.walk.before, StageReport limits ds stage []) :
    ∃ outcome, grow limits (ds.map normal) (linkedNodes (ds.map normal)) = .ok outcome ∧
      Verdict limits ds outcome := by
  obtain ⟨root, r, first, top, orphan⟩ := root_found linkable
  have links : (linkedNodes (ds.map normal)).map (·.toLinks) = nameLinks ds :=
    (linkedNodes_nameLinks _).trans (nameLinks_normal ds)
  have size : (linkedNodes (ds.map normal)).length = ds.length := by simp [linkedNodes]
  have begun : (linkedNodes (ds.map normal)).findIdx? (·.isRoot) = some root := by
    rw [root_by_links, links, ← linkedNodes_nameLinks, ← root_by_links, first]
  have closed : Closed ((linkedNodes (ds.map normal)).map (·.toLinks)) := links ▸ nameLinks_closed ds
  obtain ⟨order, w, places, surveyed⟩ := survey closed begun
  have walk : StageReport limits ds .walk (walkProblems ds.length w) :=
    walk_reports linkable top orphan (links ▸ surveyed.sound) surveyed.finished
  cases strayed : walkProblems ds.length w with
  | cons p rest =>
    rw [strayed] at walk
    exact ⟨_, grow_strayed begun surveyed (size ▸ strayed), .rejected clean walk (by simp)⟩
  | nil =>
    rw [strayed] at walk
    have accepts := accepts_iff closed (root_inside begun).1 surveyed.sound surveyed.finished
    rw [List.length_map, size] at accepts
    have tree := accepts.mp (walk_problems_eq_nil_iff.mp strayed)
    obtain ⟨n, _, grew⟩ := @grow_tree limits (ds.map normal) _ _ _ _ _ closed begun linked_indexed surveyed tree
    have depth : StageReport limits ds .depth
        (depthProblems limits (placedNodes (linkedNodes (ds.map normal)) places)) :=
      depth_reports linkable top orphan links begun surveyed (links ▸ tree)
    have before : ∀ stage ∈ Stage.depth.before, StageReport limits ds stage [] :=
      List.forall_mem_append.mpr ⟨clean, List.forall_mem_singleton.mpr walk⟩
    rw [grew]
    cases deep : depthProblems limits (placedNodes (linkedNodes (ds.map normal)) places) with
    | cons p rest =>
      rw [deep] at depth
      exact ⟨_, rfl, .rejected before depth (by simp)⟩
    | nil =>
      rw [deep] at depth
      refine ⟨_, rfl, .built fun stage => ?_⟩
      cases stage with
      | depth => exact depth
      | nodes | collection | links | walk => exact before _ (by decide)

/-- Examination always comes to an end, with a tree or with all that the first failing stage has to say. -/
theorem examine_verdict (limits : Limits) (ds : List Descriptor) :
    ∃ outcome, examine limits ds = .ok outcome ∧ Verdict limits ds outcome := by
  rcases validate_report limits ds with ⟨report, some⟩ | ⟨admissible, nodes, validated⟩
  · obtain ⟨p, rest, found⟩ := List.exists_cons_of_ne_nil some
    have validated : validate limits ds = ((validate limits ds).1, p :: rest) := Prod.ext rfl found
    exact ⟨_, by rw [examine, validated], .rejected (by simp [Stage.before]) (found ▸ report) (by simp)⟩
  have collection : StageReport limits ds .collection (collectionProblems ds) := collection_reports ds
  cases together : collectionProblems ds with
  | cons p rest =>
    rw [together] at validated collection
    exact ⟨_, by rw [examine, validated], .rejected (by simpa [Stage.before] using nodes) collection (by simp)⟩
  | nil =>
    rw [together] at validated collection
    have collected := collection_eq_nil_iff.mp together
    have distinct := names_distinct collected.distinct
    have named : ∀ d ∈ ds, d.name ≠ [] := fun d member => (admissible d member).named
    have links : StageReport limits ds .links (Linking.problems ds) :=
      links_report distinct named fun d member => (admissible d member).notOwnChild
    cases linked : Linking.problems ds with
    | cons p rest =>
      rw [linked] at links
      refine ⟨_, by simp only [examine, validated, problems_normal, linked], .rejected ?_ links (by simp)⟩
      simpa [Stage.before] using ⟨nodes, collection⟩
    | nil =>
      rw [linked] at links
      have typed : ∀ n ∈ ds.map normal, n.kind?.isSome := by
        rw [List.forall_mem_map]
        intro d member
        obtain ⟨kind, declared, _⟩ := (admissible d member).shaped
        simp [kind_eq_some_iff.mpr declared]
      have grows : examine limits ds = grow limits (ds.map normal) (linkedNodes (ds.map normal)) := by
        simp only [examine, validated, problems_normal, linked, link_succeeds typed, Except.mapError, Bind.bind,
          Except.bind]
      rw [grows]
      exact grow_verdict ⟨named, collected, (problems_eq_nil_iff distinct).mp linked⟩
        (by simpa [Stage.before] using ⟨nodes, collection, links⟩)

/-- A refused schema is told every problem of the first failing stage, each as the rules of the stage have it, and
nothing else, unless a limit that would have to be told has too many digits. -/
theorem build_reports_first_failure (limits : Limits) (ds : List Descriptor) :
    ∃ outcome, Verdict limits ds outcome ∧ (∀ p ∈ outcome.problems, outcome.stage? = some p.stage) ∧
      Told limits outcome (build limits ds) := by
  obtain ⟨outcome, ran, verdict⟩ := examine_verdict limits ds
  exact ⟨outcome, verdict, verdict_stage verdict, build_told ran⟩

/-- That two drawers are too few is a rule broken, and nothing is told of it. -/
theorem chest_untold : (∃ d ∈ chest, ∃ p, Breaks vast d p) ∧ ∀ o, build vast chest ≠ .ok o := by
  refine ⟨?_, fun o ran => nomatch chest_unwritable.symm.trans ran⟩
  obtain ⟨outcome, ran, verdict⟩ := examine_verdict vast chest
  obtain rfl := Except.ok.inj (chest_examined.symm.trans ran)
  cases verdict with
  | @rejected stage _ _ report _ =>
    obtain rfl : Stage.nodes = stage := report_stage report _ (List.mem_singleton_self _)
    obtain ⟨d, member, broken⟩ := (mem_reports_each report).mp (List.mem_singleton_self _)
    exact ⟨d, member, _, broken⟩

end SchemaTree

end PayloadSchema
