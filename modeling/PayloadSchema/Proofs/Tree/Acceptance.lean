import PayloadSchema.Proofs.Arena.NameLinks
import PayloadSchema.Proofs.Descriptor.RootedTrees
import PayloadSchema.Proofs.Tree.Growth
import PayloadSchema.Proofs.Tree.Writing

/-! Building accepts exactly the descriptors of rooted ordered trees. The stages share the work: names and links
are checked one by one, the walk sees to it that the links make a tree, and the leaves stand for all nodes when
levels are counted. -/
namespace PayloadSchema.SchemaTree
open Arena Descriptor Linking

variable {limits : Limits} {ds : List Descriptor} {d e : Descriptor} {i j k : Nat} {p : Position}

/-- The links of descriptors among each other. -/
def nameLinks (ds : List Descriptor) : List Links := ds.map (linksOf (ds.map (·.name)))

/-- The rules before walking hold for all descriptors. -/
structure Linkable (ds : List Descriptor) : Prop where
  named : ∀ d ∈ ds, d.name ≠ []
  collected : Collected ds
  resolved : ∀ (i : Nat) d, ds[i]? = some d → Resolved (ds.map (·.name)) i d

theorem name_at (found : ds[j]? = some e) {s : Text} : (ds.map (·.name))[j]? = some s ↔ e.name = s := by
  simp [found]

theorem inside_nameLinks : Inside (nameLinks ds).length p ↔ ∃ i d, ds[i]? = some d ∧ ((i : Nat) : Position) = p := by
  rw [inside_iff, nameLinks, List.length_map]
  constructor
  · rintro ⟨i, bound, rfl⟩
    exact ⟨i, ds[i], List.getElem?_eq_getElem bound, rfl⟩
  · rintro ⟨i, d, found, rfl⟩
    exact ⟨i, (List.getElem?_eq_some_iff.mp found).1, rfl⟩

theorem nameLinks_closed (ds : List Descriptor) : Closed (nameLinks ds) := by
  intro l member c listed
  obtain ⟨d, _, rfl⟩ := List.mem_map.mp member
  simpa [nameLinks] using children_inside listed

theorem parentAt_nameLinks (found : ds[i]? = some d) :
    parentAt (nameLinks ds) i = (linksOf (ds.map (·.name)) d).parent := by
  simp [parentAt, nameLinks, nodeAt?_natCast, found]

theorem childrenAt_nameLinks (found : ds[i]? = some d) :
    childrenAt (nameLinks ds) i = (linksOf (ds.map (·.name)) d).children := by
  simp [childrenAt, nameLinks, nodeAt?_natCast, found]

/-- The parent of a position is the position of the descriptor with the parent's name. -/
theorem parentAt_iff (distinct : (ds.map (·.name)).Nodup) (found : ds[j]? = some e) :
    parentAt (nameLinks ds) j = some p ↔
      e.hasParent ∧ ∃ i d, ds[i]? = some d ∧ d.name = e.parent ∧ ((i : Nat) : Position) = p := by
  rw [parentAt_nameLinks found, parent_eq_some_iff distinct]
  apply and_congr_right
  intro _
  simp only [List.getElem?_map, Option.map_eq_some_iff]
  constructor
  · rintro ⟨i, ⟨d, standing, same⟩, rfl⟩
    exact ⟨i, d, standing, same, rfl⟩
  · rintro ⟨i, d, standing, same, rfl⟩
    exact ⟨i, ⟨d, standing, same⟩, rfl⟩

/-- A position is among the children of another when its name is listed there. -/
theorem childAt_iff (found : ds[i]? = some d) (standing : ds[j]? = some e) :
    (j : Position) ∈ childrenAt (nameLinks ds) i ↔ e.name ∈ d.childNames := by
  rw [childrenAt_nameLinks found, mem_children]
  constructor
  · rintro ⟨n, s, listed, at_n, same⟩
    obtain rfl : n = j := Int.ofNat.inj same
    rwa [(name_at standing).mp at_n]
  · intro listed
    exact ⟨j, e.name, listed, (name_at standing).mpr rfl, rfl⟩

theorem parentAt_position (distinct : (ds.map (·.name)).Nodup) (found : ds[i]? = some d)
    (standing : ds[j]? = some e) :
    parentAt (nameLinks ds) j = some (i : Position) ↔ e.hasParent ∧ d.name = e.parent := by
  rw [parentAt_iff distinct standing]
  apply and_congr_right
  intro _
  constructor
  · rintro ⟨n, c, at_n, same, position⟩
    obtain rfl : n = i := Int.ofNat.inj position
    obtain rfl := Option.some.inj (at_n.symm.trans found)
    exact same
  · intro same
    exact ⟨i, d, found, same, rfl⟩

theorem parentless_iff (resolved : Resolved (ds.map (·.name)) i d) (distinct : (ds.map (·.name)).Nodup)
    (found : ds[i]? = some d) : parentAt (nameLinks ds) i = none ↔ ¬ d.hasParent := by
  rw [parentAt_nameLinks found, parent_eq_none_iff distinct]
  exact ⟨fun unknown given => unknown given (resolved.parentKnown given), fun orphan given => absurd given orphan⟩

/-- Only the top has no parent. -/
theorem top_position (linkable : Linkable ds) {root : Nat} {r : Descriptor} (top : ds[root]? = some r)
    (orphan : ¬ r.hasParent) (found : ds[i]? = some d) (parentless : d.parent = []) : i = root := by
  obtain ⟨alone, single, _⟩ := linkable.collected.rooted
  have listed : ∀ e ∈ ds, ¬ e.hasParent → e = alone := by
    intro e known unparented
    have member : e ∈ ds.filter fun d => !d.hasParent := List.mem_filter.mpr ⟨known, by simpa using unparented⟩
    simpa [single] using member
  have same : d = r := (listed d (List.mem_of_getElem? found) (by simp [hasParent_iff, parentless])).trans
    (listed r (List.mem_of_getElem? top) orphan).symm
  have names : (ds.map (·.name))[i]? = (ds.map (·.name))[root]? := by simp [found, top, same]
  have bound : i < (ds.map (·.name)).length := by simpa using (List.getElem?_eq_some_iff.mp found).1
  exact (List.getElem?_inj bound (names_distinct linkable.collected.distinct)).mp names

/-- Climbing by names and ascending by positions are the same. -/
theorem ascends_iff_climbs (linkable : Linkable ds) {root : Nat} {r : Descriptor} (top : ds[root]? = some r)
    (orphan : ¬ r.hasParent) (found : ds[i]? = some d) :
    Ascends (nameLinks ds) root k i ↔ Climbs ds k d := by
  have distinct := names_distinct linkable.collected.distinct
  constructor
  · generalize position : (i : Position) = p
    intro above
    induction above generalizing i d with
    | root =>
      obtain rfl : i = root := Int.ofNat.inj position
      obtain rfl := Option.some.inj (found.symm.trans top)
      exact .top (List.mem_of_getElem? found) (by simpa [hasParent_iff] using orphan)
    | parent named _ ih =>
      subst position
      obtain ⟨given, n, e, standing, same, rfl⟩ := (parentAt_iff distinct found).mp named
      exact .up (List.mem_of_getElem? found) same.symm (ih standing rfl)
  · intro climbs
    induction climbs generalizing i with
    | top _ parentless =>
      rw [top_position linkable top orphan found parentless]
      exact .root
    | @up k d e member named above ih =>
      obtain ⟨n, standing⟩ := List.mem_iff_getElem?.mp (climbs_member above)
      have given : d.hasParent := hasParent_iff.mpr (named ▸ linkable.named e (climbs_member above))
      exact .parent ((parentAt_position distinct standing found).mpr ⟨given, named.symm⟩) (ih standing)

theorem children_nodup (linkable : Linkable ds) (found : ds[i]? = some d) : (childrenAt (nameLinks ds) i).Nodup := by
  obtain ⟨_, _, once, known, _⟩ := linkable.resolved i d found
  rw [childrenAt_nameLinks found, children_in_order (names_distinct linkable.collected.distinct) once known]
  apply once.map_on
  intro s listed s' listed' same
  exact (List.idxOf_inj (known s listed)).mp (Int.ofNat.inj same)

theorem parentAt_of_named (linkable : Linkable ds) (found : ds[i]? = some d) (standing : ds[j]? = some e) :
    parentAt (nameLinks ds) j = some (i : Position) ↔ e.parent = d.name := by
  rw [parentAt_position (names_distinct linkable.collected.distinct) found standing]
  refine ⟨fun step => step.2.symm, fun step => ⟨hasParent_iff.mpr ?_, step.symm⟩⟩
  exact step ▸ linkable.named d (List.mem_of_getElem? found)

/-- The links make a tree exactly when parents and children name each other and everyone reaches the top. -/
theorem isTree_iff (linkable : Linkable ds) {root : Nat} {r : Descriptor} (top : ds[root]? = some r)
    (orphan : ¬ r.hasParent) :
    IsTree (nameLinks ds) root ↔
      (∀ d ∈ ds, ∀ e ∈ ds, e.name ∈ d.childNames ↔ e.parent = d.name) ∧ ∀ d ∈ ds, ∃ k, Climbs ds k d := by
  have distinct := names_distinct linkable.collected.distinct
  constructor
  · intro tree
    refine ⟨fun d one e other => ?_, fun d member => ?_⟩
    · obtain ⟨i, found⟩ := List.mem_iff_getElem?.mp one
      obtain ⟨j, standing⟩ := List.mem_iff_getElem?.mp other
      have inside := inside_nameLinks.mpr ⟨i, d, found, rfl⟩
      have mirrored := tree.agree i j (inside_nameLinks.mpr ⟨j, e, standing, rfl⟩)
      rw [parentAt_of_named linkable found standing, childAt_iff found standing] at mirrored
      exact ⟨fun listed => mirrored.mpr ⟨inside, listed⟩, fun named => (mirrored.mp named).2⟩
    · obtain ⟨i, found⟩ := List.mem_iff_getElem?.mp member
      obtain ⟨k, above⟩ := tree.ascends i (inside_nameLinks.mpr ⟨i, d, found, rfl⟩)
      exact ⟨k, (ascends_iff_climbs linkable top orphan found).mp above⟩
  · rintro ⟨agree, climbs⟩
    refine ⟨(parentless_iff (linkable.resolved root r top) distinct top).mpr orphan, fun x c inside => ?_,
      fun x inside => ?_, fun p inside => ?_⟩
    · obtain ⟨j, e, standing, rfl⟩ := inside_nameLinks.mp inside
      constructor
      · intro named
        obtain ⟨_, i, d, found, same, rfl⟩ := (parentAt_iff distinct standing).mp named
        refine ⟨inside_nameLinks.mpr ⟨i, d, found, rfl⟩, (childAt_iff found standing).mpr ?_⟩
        exact (agree d (List.mem_of_getElem? found) e (List.mem_of_getElem? standing)).mpr same.symm
      · rintro ⟨xInside, listed⟩
        obtain ⟨i, d, found, rfl⟩ := inside_nameLinks.mp xInside
        rw [parentAt_of_named linkable found standing]
        exact (agree d (List.mem_of_getElem? found) e (List.mem_of_getElem? standing)).mp
          ((childAt_iff found standing).mp listed)
    · obtain ⟨i, d, found, rfl⟩ := inside_nameLinks.mp inside
      exact children_nodup linkable found
    · obtain ⟨i, d, found, rfl⟩ := inside_nameLinks.mp inside
      obtain ⟨k, above⟩ := climbs d (List.mem_of_getElem? found)
      exact ⟨k, (ascends_iff_climbs linkable top orphan found).mpr above⟩

theorem forms_linkable (forms : FormsTree limits ds) : Linkable ds := by
  refine ⟨forms.named, forms.collected, fun i d found => ?_⟩
  have member := List.mem_of_getElem? found
  refine ⟨fun given => ?_, fun own => ?_, (forms.listed d member).1, fun s listed => ?_, fun own => ?_⟩
  · obtain ⟨e, known, same⟩ := forms.parent_known member given
    exact same ▸ List.mem_map_of_mem known
  · obtain ⟨_, j, at_j, same⟩ := (parent_eq_some_iff forms.names).mp own
    obtain rfl : j = i := Int.ofNat.inj same
    exact forms.no_own_parent member ((name_at found).mp at_j).symm
  · obtain ⟨e, known, same⟩ := (forms.listed d member).2 s listed
    exact same ▸ List.mem_map_of_mem known
  · obtain ⟨j, s, listed, at_j, same⟩ := mem_children.mp own
    obtain rfl : j = i := Int.ofNat.inj same
    exact (forms.admissible member).notOwnChild ((name_at found).mp at_j ▸ listed)

theorem linkedNodes_nameLinks (ds : List Descriptor) : (linkedNodes ds).map (·.toLinks) = nameLinks ds :=
  linkedNodes_links ds

theorem linked_at (found : ds[i]? = some d) : (linkedNodes ds)[i]? = some (linkedNode (ds.map (·.name)) i d) := by
  simp [linkedNodes, List.getElem?_mapIdx, found]

theorem linked_indexed (i : Nat) (n : Node) (found : (linkedNodes ds)[i]? = some n) : n.index = i := by
  simp only [linkedNodes, List.getElem?_mapIdx, Option.map_eq_some_iff] at found
  obtain ⟨d, _, rfl⟩ := found
  rfl

/-- The node that is taken for the root is that of a descriptor without a parent. -/
theorem root_found (linkable : Linkable ds) :
    ∃ root r, (linkedNodes ds).findIdx? (·.isRoot) = some root ∧ ds[root]? = some r ∧ ¬ r.hasParent := by
  have distinct := names_distinct linkable.collected.distinct
  have orphan_iff : ∀ {i d}, ds[i]? = some d → ((linkedNode (ds.map (·.name)) i d).isRoot ↔ ¬ d.hasParent) := by
    intro i d found
    rw [← parentless_iff (linkable.resolved i d found) distinct found, parentAt_nameLinks found]
    simp [linkedNode, Node.isRoot]
  obtain ⟨top, single, _⟩ := linkable.collected.rooted
  have listed : top ∈ ds.filter fun d => !d.hasParent := single ▸ List.mem_singleton_self top
  obtain ⟨member, unparented⟩ := List.mem_filter.mp listed
  obtain ⟨i, found⟩ := List.mem_iff_getElem?.mp member
  cases first : (linkedNodes ds).findIdx? (·.isRoot) with
  | none =>
    have never := List.findIdx?_eq_none_iff.mp first _ (List.mem_of_getElem? (linked_at found))
    exact absurd ((orphan_iff found).mpr (by simpa using unparented)) (by simp [never])
  | some root =>
    obtain ⟨bound, isRoot, _⟩ := List.findIdx?_eq_some_iff_getElem.mp first
    have small : root < ds.length := by simpa [linkedNodes] using bound
    have at_root := List.getElem?_eq_getElem small
    refine ⟨root, ds[root], rfl, at_root, (orphan_iff at_root).mp ?_⟩
    simpa [linkedNodes] using isRoot

/-- What a tree owes to the descriptors in normal form that it was grown from. -/
structure Grown (limits : Limits) (ds : List Descriptor) (root : Nat) (order : List Position) (w : Walk)
    (places : List (Position × Place)) (t : SchemaTree) : Prop where
  forms : FormsTree limits ds
  first : (linkedNodes ds).findIdx? (·.isRoot) = some root
  surveyed : Surveyed (linkedNodes ds) root order w places
  tree : IsTree (nameLinks ds) root
  top : nodeAt? t.nodes root = some t.root
  built : t = ofPlaces limits ds (linkedNodes ds) places t.root

/-- Where the rules before walking hold, what is left to see is that the links make a tree and that no position is
too far from its root. -/
theorem forms_iff (linkable : Linkable ds) (admissible : ∀ d ∈ ds, Admissible limits d) {root : Nat} {r : Descriptor}
    (top : ds[root]? = some r) (orphan : ¬ r.hasParent) :
    FormsTree limits ds ↔ IsTree (nameLinks ds) root ∧
      ∀ p k, Inside ds.length p → Ascends (nameLinks ds) root k p → k + 1 ≤ limits.maxDepth := by
  rw [isTree_iff linkable top orphan]
  have size : (nameLinks ds).length = ds.length := List.length_map _
  constructor
  · intro forms
    refine ⟨⟨forms.agree, fun d member => ?_⟩, fun p k inside above => ?_⟩
    · obtain ⟨k, _, above⟩ := forms.climbs d member
      exact ⟨k, above⟩
    · obtain ⟨i, d, found, rfl⟩ := inside_nameLinks.mp (size ▸ inside)
      obtain ⟨j, bound, climbs⟩ := forms.climbs d (List.mem_of_getElem? found)
      have same := climbs_unique forms.named forms.names climbs
        ((ascends_iff_climbs linkable top orphan found).mp above)
      exact same ▸ bound
  · rintro ⟨⟨agree, climbs⟩, levels⟩
    obtain ⟨alone, single, object⟩ := linkable.collected.rooted
    refine ⟨linkable.named, fun d member => (admissible d member).shaped, linkable.collected.distinct,
      ⟨alone, ?_, object⟩, fun d member => ?_, agree, fun d member => ?_⟩
    · rw [← filter_parentless, single]
    · obtain ⟨i, found⟩ := List.mem_iff_getElem?.mp member
      have resolved := linkable.resolved i d found
      exact ⟨resolved.listedOnce, fun s listed => List.mem_map.mp (resolved.childrenKnown s listed)⟩
    · obtain ⟨i, found⟩ := List.mem_iff_getElem?.mp member
      obtain ⟨k, above⟩ := climbs d member
      exact ⟨k, levels i k (size ▸ inside_nameLinks.mpr ⟨i, d, found, rfl⟩)
        ((ascends_iff_climbs linkable top orphan found).mpr above), above⟩

/-- Growing decides whether linked descriptors make a tree that is not too deep. -/
theorem grow_outcome (linkable : Linkable ds) (admissible : ∀ d ∈ ds, Admissible limits d) :
    (∃ t root order w places,
      grow limits ds (linkedNodes ds) = .ok (.built t) ∧ Grown limits ds root order w places t) ∨
      (¬ FormsTree limits ds ∧ ∃ p rest, grow limits ds (linkedNodes ds) = .ok (.rejected (p :: rest))) := by
  obtain ⟨root, r, first, top, orphan⟩ := root_found linkable
  have links := linkedNodes_nameLinks ds
  have size : (linkedNodes ds).length = ds.length := List.length_mapIdx
  have closed : Closed ((linkedNodes ds).map (·.toLinks)) := links ▸ nameLinks_closed ds
  obtain ⟨order, w, places, surveyed⟩ := survey closed first
  have forms := forms_iff linkable admissible top orphan
  by_cases tree : IsTree (nameLinks ds) root
  · have grown : IsTree ((linkedNodes ds).map (·.toLinks)) root := links ▸ tree
    have shallow := shallow_iff closed first surveyed grown limits.maxDepth
    rw [links, size] at shallow
    obtain ⟨n, found, grew⟩ := @grow_tree limits ds _ _ _ _ _ closed first linked_indexed surveyed grown
    cases depth : depthProblems limits (placedNodes (linkedNodes ds) places) with
    | nil =>
      left
      rw [depth] at grew
      have levels := shallow.mp (depth_eq_nil_iff.mp depth)
      exact ⟨_, root, order, w, places, grew, forms.mpr ⟨tree, levels⟩, first, surveyed, tree, found, rfl⟩
    | cons p rest =>
      right
      rw [depth] at grew
      refine ⟨fun formed => ?_, p, rest, grew⟩
      have fits := depth_eq_nil_iff.mpr (shallow.mpr (forms.mp formed).2)
      simp [fits] at depth
  · right
    have noTree : ¬ IsTree ((linkedNodes ds).map (·.toLinks)) root := fun grown => tree (links ▸ grown)
    exact ⟨fun formed => tree (forms.mp formed).1, grow_no_tree closed first surveyed noTree⟩

/-- Examination always comes to an end: it grows a tree from descriptors that form one, and finds problems with all
others. -/
theorem examine_outcome (limits : Limits) (ds : List Descriptor) :
    (∃ t root order w places, examine limits ds = .ok (.built t) ∧
        Grown limits (ds.map normal) root order w places t) ∨
      (¬ FormsTree limits ds ∧ ∃ p rest, examine limits ds = .ok (.rejected (p :: rest))) := by
  rw [← forms_normal]
  cases checked : validate limits ds with
  | mk normal found =>
    cases found with
    | cons p rest =>
      right
      refine ⟨fun forms => ?_, p, rest, by simp only [examine, checked]⟩
      have original := forms_normal.mp forms
      have accepted := validate_accepts_iff.mpr ⟨fun d => original.admissible, original.collected⟩
      simp [checked] at accepted
    | nil =>
      obtain ⟨admissible, collected⟩ := validate_accepts_iff.mp (congrArg Prod.snd checked)
      obtain rfl : ds.map Descriptor.normal = normal :=
        (validate_normal admissible).symm.trans (congrArg Prod.fst checked)
      have normalized : Collected (ds.map Descriptor.normal) := collected_normal.mpr collected
      have distinct := names_distinct normalized.distinct
      have admitted : ∀ n ∈ ds.map Descriptor.normal, Admissible limits n :=
        List.forall_mem_map.mpr fun d member => admissible_normal (admissible d member)
      cases links : Linking.problems (ds.map Descriptor.normal) with
      | cons p rest =>
        right
        refine ⟨fun forms => ?_, p, rest, by simp only [examine, checked, links]⟩
        have resolved := (problems_eq_nil_iff distinct).mpr (forms_linkable forms).resolved
        simp [links] at resolved
      | nil =>
        have typed : ∀ n ∈ ds.map Descriptor.normal, n.kind?.isSome := fun n member => by
          obtain ⟨kind, declared, _⟩ := (admitted n member).shaped
          rw [kind_eq_some_iff.mpr declared]
          rfl
        have grows : examine limits ds =
            grow limits (ds.map Descriptor.normal) (linkedNodes (ds.map Descriptor.normal)) := by
          simp only [examine, checked, links, link_succeeds typed, Except.mapError, Bind.bind, Except.bind]
        rw [grows]
        exact grow_outcome ⟨fun n member => (admitted n member).named, normalized,
          (problems_eq_nil_iff distinct).mp links⟩ admitted

/-- Building grows a tree from descriptors that form one. Of all others it reports something, unless a limit that has
too many digits keeps it from that. -/
theorem build_outcome (limits : Limits) (ds : List Descriptor) :
    (∃ t root order w places, build limits ds = .ok (.built t) ∧
        Grown limits (ds.map normal) root order w places t) ∨
      ¬ FormsTree limits ds ∧ ((∃ p rest, build limits ds = .ok (.rejected (p :: rest))) ∨
        ∃ p, p.Quotes limits ∧ p.isWritable = false ∧ build limits ds = .error (.unwritable p)) := by
  refine (examine_outcome limits ds).imp ?_ ?_
  · rintro ⟨t, root, order, w, places, ran, grown⟩
    exact ⟨t, root, order, w, places, build_built ran, grown⟩
  · rintro ⟨formless, p, rest, ran⟩
    refine ⟨formless, (build_cases ran).imp (⟨p, rest, ·⟩) ?_⟩
    rintro ⟨q, _, quotes, long, failed⟩
    exact ⟨q, quotes, long, failed⟩

theorem ok_of_tree {answer : Except Defect Outcome} {t : SchemaTree}
    (found : answer.toOption.bind Outcome.tree? = some t) : answer = .ok (.built t) := by
  cases answer with
  | error _ => simp [Except.toOption] at found
  | ok outcome =>
    cases outcome with
    | built t => cases found; rfl
    | rejected _ => simp [Except.toOption, Outcome.tree?] at found

theorem built_of_tree {answer : Except Defect Outcome} (some : (answer.toOption.bind Outcome.tree?).isSome) :
    ∃ t, answer = .ok (.built t) := by
  obtain ⟨t, found⟩ := Option.isSome_iff_exists.mp some
  exact ⟨t, ok_of_tree found⟩

/-- What is computed of the tree in the answer is computed of a tree that was built. -/
theorem built_with {β : Type} (limits : Limits) (ds : List Descriptor) (f : SchemaTree → β) (result : β)
    (computed : ((build limits ds).toOption.bind Outcome.tree?).map f = some result) :
    ∃ t, build limits ds = .ok (.built t) ∧ f t = result := by
  obtain ⟨t, found, same⟩ := Option.map_eq_some_iff.mp computed
  exact ⟨t, ok_of_tree found, same⟩

/-- Building accepts exactly the descriptors of rooted ordered trees within the limits. Whatever else it is given, it
reports something, unless a limit that would stand in the report has too many digits. -/
theorem build_accepts_iff (limits : Limits) (ds : List Descriptor) :
    ((∃ t, build limits ds = .ok (.built t)) ↔ FormsTree limits ds) ∧
      (¬ FormsTree limits ds → (∃ o, build limits ds = .ok o ∧ o.tree? = none ∧ o.report.isOk = false) ∨
        ∃ p, p.Quotes limits ∧ p.isWritable = false ∧ build limits ds = .error (.unwritable p)) ∧
      (limits.isWritable → ∃ o, build limits ds = .ok o ∧ (o.tree?.isSome ↔ FormsTree limits ds) ∧
        (o.report.isOk ↔ FormsTree limits ds)) := by
  rcases build_outcome limits ds with ⟨t, root, order, w, places, built, grown⟩ | ⟨formless, answer⟩
  · have forms := forms_normal.mp grown.forms
    refine ⟨iff_of_true ⟨t, built⟩ forms, fun formless => absurd forms formless, fun _ => ⟨_, built, ?_, ?_⟩⟩
    · simp [Outcome.tree?, forms]
    · simp [Outcome.report, Outcome.problems, Report.isOk_ofProblems, forms]
  · rcases answer with ⟨p, rest, rejected⟩ | ⟨p, quotes, long, failed⟩
    · have refused : ¬ ∃ t, build limits ds = .ok (.built t) := by
        rintro ⟨t, built⟩
        cases rejected.symm.trans built
      refine ⟨iff_of_false refused formless, fun _ => .inl ⟨_, rejected, rfl, ?_⟩, fun _ => ⟨_, rejected, ?_, ?_⟩⟩
      · simp [Outcome.report, Outcome.problems, Report.isOk_ofProblems]
      · simp [Outcome.tree?, formless]
      · simp [Outcome.report, Outcome.problems, Report.isOk_ofProblems, formless]
    · have refused : ¬ ∃ t, build limits ds = .ok (.built t) := by
        rintro ⟨t, built⟩
        cases failed.symm.trans built
      refine ⟨iff_of_false refused formless, fun _ => .inr ⟨p, quotes, long, failed⟩, fun short => ?_⟩
      rw [Problem.quotes_writable quotes short] at long
      cases long

/-- Nothing is reported of two drawers where there ought to be more than can be said, though they form no tree. -/
theorem chest_unanswered : ¬ FormsTree vast chest ∧ ¬ ∃ o, build vast chest = .ok o := by
  have failed := chest_unwritable
  constructor
  · intro forms
    obtain ⟨t, _, _, _, _, built, _⟩ := (build_outcome vast chest).resolve_right fun formless => formless.1 forms
    cases failed.symm.trans built
  · rintro ⟨o, ran⟩
    cases failed.symm.trans ran

end PayloadSchema.SchemaTree
