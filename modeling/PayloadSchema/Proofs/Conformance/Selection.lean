import PayloadSchema.Proofs.Conformance.Positions

/-! What paths select. The sites of a node are found by following the segments of its path, and in a conforming document
they are the node's positions. A field called `*` leads to every member of an object, so steps may lead to more than
segments do; as long as no leaf or array of that name has siblings, the steps to a leaf still lead to its sites only. -/
namespace PayloadSchema

/-- The spots just inside a value that a segment leads to, with what stands there. -/
def Segment.within : Segment → Json → List (Spot × Json)
  | field name, .obj members => (Assoc.get? members name).toList.map fun v => (.member name, v)
  | each, .arr items => items.zipIdx.map fun entry => (.item entry.2, entry.1)
  | _, _ => []

theorem Segment.mem_within_field {name : Text} {v w : Json} {spot : Spot} :
    (spot, w) ∈ (field name).within v ↔
      ∃ members, v = .obj members ∧ spot = .member name ∧ Assoc.get? members name = some w := by
  cases v with
  | obj members =>
    simp only [within, List.mem_map, Option.mem_toList, Prod.mk.injEq, Json.obj.injEq, exists_eq_left']
    constructor
    · rintro ⟨_, found, rfl, rfl⟩
      exact ⟨rfl, found⟩
    · rintro ⟨rfl, found⟩
      exact ⟨w, found, rfl, rfl⟩
  | null | bool _ | int _ | real _ | str _ | arr _ => simp [within]

theorem Segment.mem_within_each {v w : Json} {spot : Spot} :
    (spot, w) ∈ each.within v ↔ ∃ items i, v = .arr items ∧ spot = .item i ∧ items[i]? = some w := by
  cases v with
  | arr items =>
    simp only [within, List.mem_map, Prod.exists, List.mem_zipIdx_iff_getElem?, Prod.mk.injEq, Json.arr.injEq,
      exists_and_left, exists_eq_left']
    constructor
    · rintro ⟨_, i, found, rfl, rfl⟩
      exact ⟨i, rfl, found⟩
    · rintro ⟨i, rfl, found⟩
      exact ⟨w, i, found, rfl, rfl⟩
  | null | bool _ | int _ | real _ | str _ | obj _ => simp [within]

theorem Segment.values_field (name : Text) (members : List (Text × Json)) :
    ((field name).within (.obj members)).map Prod.snd = (Assoc.get? members name).toList := by
  simp [within, List.map_map]

theorem Segment.values_each (items : List Json) : (each.within (.arr items)).map Prod.snd = items := by
  rw [within, List.map_map]
  exact List.zipIdx_map_fst 0 items

theorem Segment.within_nodup (s : Segment) (v : Json) : ((s.within v).map Prod.fst).Nodup := by
  unfold within
  split
  · rename_i name members
    cases Assoc.get? members name <;> simp
  · rename_i items
    have indices : (items.zipIdx.map Prod.snd).Nodup := by
      rw [List.zipIdx_map_snd]
      exact List.nodup_range'
    rw [List.map_map]
    have spots := indices.map (f := Spot.item) fun i j => Spot.item.inj
    rwa [List.map_map] at spots
  · exact List.nodup_nil

/-- Values of a document with their places, a segment further. -/
def Segment.follow (s : Segment) (sites : List (List Spot × Json)) : List (List Spot × Json) :=
  sites.flatMap fun site => (s.within site.2).map fun found => (site.1 ++ [found.1], found.2)

theorem Segment.mem_follow {s : Segment} {sites : List (List Spot × Json)} {place : List Spot} {w : Json} :
    (place, w) ∈ s.follow sites ↔
      ∃ above v spot, place = above ++ [spot] ∧ (above, v) ∈ sites ∧ (spot, w) ∈ s.within v := by
  simp only [follow, List.mem_flatMap, List.mem_map, Prod.mk.injEq]
  constructor
  · rintro ⟨⟨above, v⟩, site, ⟨spot, _⟩, inside, rfl, rfl⟩
    exact ⟨above, v, spot, rfl, site, inside⟩
  · rintro ⟨above, v, spot, rfl, site, inside⟩
    exact ⟨(above, v), site, (spot, w), inside, rfl, rfl⟩

/-- Places stay apart: behind one place there are different spots, and what was apart before stays so. -/
theorem Segment.follow_nodup (s : Segment) {sites : List (List Spot × Json)} (distinct : (sites.map Prod.fst).Nodup) :
    ((s.follow sites).map Prod.fst).Nodup := by
  rw [follow, List.map_flatMap, List.nodup_flatMap]
  constructor
  · intro site _
    have injective : Function.Injective fun spot : Spot => site.1 ++ [spot] := fun _ _ same =>
      List.singleton_inj.mp (List.append_cancel_left same)
    have behind := (s.within_nodup site.2).map injective
    rwa [List.map_map] at behind ⊢
  · refine (List.pairwise_map.mp distinct).imp fun apart place one other => apart ?_
    simp only [List.map_map, List.mem_map] at one other
    obtain ⟨_, _, rfl⟩ := one
    obtain ⟨_, _, same⟩ := other
    exact (List.append_inj' same rfl).1.symm

theorem Segment.values_follow (s : Segment) (sites : List (List Spot × Json)) :
    (s.follow sites).map Prod.snd = (sites.map Prod.snd).flatMap fun v => (s.within v).map Prod.snd := by
  simp only [follow, List.map_flatMap, List.flatMap_map, List.map_map]
  rfl

/-- The values that the segments of a node's path lead to, with their places. -/
def Node.sites (n : Node) (d : Json) : List (List Spot × Json) :=
  n.segments.foldl (fun sites s => s.follow sites) [([], d)]

theorem Node.sites_nodup (n : Node) (d : Json) : ((n.sites d).map Prod.fst).Nodup := by
  suffices kept : ∀ (segments : List Segment) (sites : List (List Spot × Json)), (sites.map Prod.fst).Nodup →
      ((segments.foldl (fun sites s => s.follow sites) sites).map Prod.fst).Nodup from
    kept n.segments [([], d)] (List.nodup_singleton _)
  intro segments
  induction segments with
  | nil => exact fun _ distinct => distinct
  | cons s rest ih => exact fun sites distinct => ih (s.follow sites) (s.follow_nodup distinct)

/-- What a finder finds by a node's path in a document. -/
def Node.selected (n : Node) (F : Finder) (d : Json) : List Json := F.find (Path.mk n.segments).steps d

/-- Where only one key leads to anything, a keyed list leads where this key does. -/
theorem flatMap_only {α β : Type} {entries : List (Text × α)} (distinct : (entries.map Prod.fst).Nodup) {key : Text}
    {f : α → List β} (nothing : ∀ entry ∈ entries, entry.1 ≠ key → f entry.2 = []) :
    (entries.map Prod.snd).flatMap f = (Assoc.get? entries key).toList.flatMap f := by
  induction entries with
  | nil => rfl
  | cons entry rest ih =>
    obtain ⟨fresh, others⟩ := List.nodup_cons.mp distinct
    obtain ⟨first, behind⟩ := List.forall_mem_cons.mp nothing
    rw [List.map_cons, List.flatMap_cons, ih others behind, Assoc.get?]
    by_cases same : entry.1 = key
    · have absent : Assoc.get? rest key = none := by
        rw [← Option.not_isSome_iff_eq_none, Assoc.isSome_get?_iff, ← same]
        exact fresh
      simp [same, absent]
    · simp [same, first same]

namespace SchemaTree
open Arena Branch Descriptor

/-- Whether a child called `*` is alone or an object. Its step leads to the values of its siblings too, but in those
the children of an object are looked for in vain, as no two nodes have the same name. -/
def StarsApart (t : SchemaTree) : Prop :=
  ∀ n ∈ t.nodes, ∀ m ∈ t.nodes, m.name = "*" → ("*" : Text) ∈ n.descriptor.childNames →
    m.kind = .object ∨ n.descriptor.childNames = (["*"] : List Text)

instance (t : SchemaTree) : Decidable t.StarsApart :=
  inferInstanceAs (Decidable (∀ n ∈ t.nodes, ∀ m ∈ t.nodes, m.name = "*" → ("*" : Text) ∈ n.descriptor.childNames →
    m.kind = .object ∨ n.descriptor.childNames = (["*"] : List Text)))

variable {F : Finder} {t : SchemaTree} {n m c : Node} {d v : Json}

namespace Built

variable (built : t.Built)
include built

theorem sites_root : t.root.sites d = [([], d)] := by
  rw [Node.sites, built.root_segments]
  rfl

theorem sites_child (member : n ∈ t.nodes) (child : m ∈ childNodes t.nodes n) :
    m.sites d = (Segment.below n.kind m.name).follow (n.sites d) := by
  rw [Node.sites, built.child_segments member child, List.foldl_append]
  rfl

theorem selected_root (finding : F.Lawful) : t.root.selected F d = [d] := by
  rw [Node.selected, built.root_segments]
  exact finding.root d

theorem selected_child (finding : F.Lawful) (member : n ∈ t.nodes) (child : m ∈ childNodes t.nodes n) :
    m.selected F d = (n.selected F d).flatMap (F.lead (.ofSegment (.below n.kind m.name))) := by
  rw [Node.selected, Path.steps, built.child_segments member child, List.map_append]
  exact finding.child _ _ _

/-- A child stands just inside what stands at a position of its parent. -/
theorem occurs_below (member : n ∈ t.nodes) (child : m ∈ childNodes t.nodes n) {place : List Spot} {w : Json}
    (keyed : ∀ place v, t.Occurs d n place v → v.Keyed) :
    t.Occurs d m place w ↔ ∃ above v spot, place = above ++ [spot] ∧ t.Occurs d n above v ∧
      (spot, w) ∈ (Segment.below n.kind m.name).within v := by
  obtain ⟨known, parent⟩ := (built.mem_childNodes member).mp child
  constructor
  · intro occurs
    cases occurs with
    | root => exact absurd child (built.root_no_child member)
    | @member p _ above members _ upper kind _ other value =>
      obtain rfl := Option.some.inj (Except.ok.inj (other.symm.trans parent))
      refine ⟨above, _, _, rfl, upper, ?_⟩
      rw [kind]
      exact Segment.mem_within_field.mpr ⟨members, rfl, rfl, (keyed above _ upper).get?_iff.mpr value⟩
    | @item p _ above items i _ upper kind _ other value =>
      obtain rfl := Option.some.inj (Except.ok.inj (other.symm.trans parent))
      refine ⟨above, _, _, rfl, upper, ?_⟩
      rw [kind]
      exact Segment.mem_within_each.mpr ⟨items, i, rfl, rfl, value⟩
  · rintro ⟨above, v, spot, rfl, upper, inside⟩
    rcases built.parent_kind member child with kind | kind
    · rw [kind] at inside
      obtain ⟨members, rfl, rfl, found⟩ := Segment.mem_within_field.mp inside
      exact .member upper kind known parent ((keyed above _ upper).get?_iff.mp found)
    · rw [kind] at inside
      obtain ⟨items, i, rfl, rfl, found⟩ := Segment.mem_within_each.mp inside
      exact .item upper kind known parent found

section Conforming

variable (keyed : d.Keyed) (conforms : Conforms d t.trunk)
include keyed conforms

/-- The sites of a node are its positions. -/
theorem mem_sites : ∀ n ∈ t.nodes, ∀ place v, (place, v) ∈ n.sites d ↔ t.Occurs d n place v := by
  refine built.downward (fun place v => ?_) fun n member m child above place w => ?_
  · rw [built.sites_root]
    constructor
    · intro site
      cases List.mem_singleton.mp site
      exact .root
    · intro occurs
      cases occurs with
      | root => exact List.mem_singleton_self _
      | member above _ known parent | item above _ known parent =>
        have upper := (built.occurs_segments above).1
        exact absurd ((built.mem_childNodes upper).mpr ⟨known, parent⟩) (built.root_no_child upper)
  · rw [built.sites_child member child, Segment.mem_follow, built.occurs_below member child fun _ _ occurs =>
      (built.occurs_conforms keyed conforms occurs).1]
    simp only [above]

theorem sites_conform (member : n ∈ t.nodes) : ∀ v ∈ (n.sites d).map Prod.snd, v.Keyed ∧ Conforms v (t.branch n) := by
  intro v listed
  obtain ⟨site, found, rfl⟩ := List.mem_map.mp listed
  exact built.occurs_conforms keyed conforms ((built.mem_sites keyed conforms n member site.1 site.2).mp found)

end Conforming

/-- In what stands beside a child, nothing has the name of a grandchild. -/
theorem siblings_lack {members : List (Text × Json)} (keyed : (Json.obj members).Keyed)
    (conforms : Conforms (.obj members) (t.branch n)) (member : n ∈ t.nodes) (kind : n.kind = .object)
    (child : m ∈ childNodes t.nodes n) (grandchild : c ∈ childNodes t.nodes m) :
    ∀ entry ∈ members, entry.1 ≠ m.name → entry.2.get? c.name = none := by
  rintro ⟨name, inner⟩ listed other
  obtain ⟨_, same, each, only⟩ := (built.conforms_object member kind).mp conforms
  cases same
  have beside : name ∈ n.descriptor.childNames := only name (List.mem_map_of_mem listed)
  rw [← built.childNames member] at beside
  obtain ⟨x, sibling, rfl⟩ := List.mem_map.mp beside
  obtain ⟨_, found, conforming⟩ := each x sibling
  obtain rfl := Option.some.inj (found.symm.trans (keyed.get?_iff.mpr listed))
  have mKnown := built.shaped.child_member member child
  have xKnown := built.shaped.child_member member sibling
  rw [Option.eq_none_iff_forall_ne_some]
  intro w there
  -- the sibling would have a child of that name, so the grandchild would have two parents
  have named := (built.conforms_get? xKnown conforming there).2
  obtain ⟨cKnown, parent⟩ := (built.mem_childNodes mKnown).mp grandchild
  have below := (built.listed_iff xKnown cKnown).mpr named
  obtain ⟨_, second⟩ := (built.mem_childNodes xKnown).mp below
  exact other (congrArg Node.name (Option.some.inj (Except.ok.inj (second.symm.trans parent))))

section Steps

variable (finding : F.Lawful) (keyed : v.Keyed) (conforms : Conforms v (t.branch n))
include finding keyed conforms

/-- In a value that conforms to a node, the step to a child that is no star among others leads where the child's segment
leads. -/
theorem select_below (member : n ∈ t.nodes) (child : m ∈ childNodes t.nodes n)
    (alone : m.name = "*" → n.descriptor.childNames = (["*"] : List Text)) :
    F.lead (.ofSegment (.below n.kind m.name)) v = ((Segment.below n.kind m.name).within v).map Prod.snd := by
  rcases built.parent_kind member child with kind | kind
  · obtain ⟨members, rfl, _⟩ := (built.conforms_object member kind).mp conforms
    have names := built.member_names member kind keyed conforms
    rw [kind]
    refine Eq.trans ?_ (Segment.values_field m.name members).symm
    by_cases star : m.name = "*"
    · -- everything inside is the star's own member
      rw [alone star] at names
      obtain ⟨⟨name, inner⟩, rfl, same⟩ := List.map_eq_singleton_iff.mp (List.singleton_perm.mp names).symm
      obtain rfl : name = "*" := same
      rw [star]
      exact finding.star _
    · exact finding.field star _
  · obtain ⟨items, _, rfl, _⟩ := (built.conforms_array member kind).mp conforms
    rw [kind]
    exact (finding.each items).trans (Segment.values_each items).symm

/-- Two steps down, the steps lead where the segments do, even behind a star among others. -/
theorem select_through (apart : t.StarsApart) (member : n ∈ t.nodes) (child : m ∈ childNodes t.nodes n)
    (grandchild : c ∈ childNodes t.nodes m) :
    (F.lead (.ofSegment (.below n.kind m.name)) v).flatMap (F.lead (.ofSegment (.below m.kind c.name))) =
      (((Segment.below n.kind m.name).within v).map Prod.snd).flatMap
        (F.lead (.ofSegment (.below m.kind c.name))) := by
  by_cases alone : m.name = "*" → n.descriptor.childNames = (["*"] : List Text)
  · rw [built.select_below finding keyed conforms member child alone]
  · obtain ⟨star, crowded⟩ := Classical.not_imp.mp alone
    have known := built.shaped.child_member member child
    have listed : ("*" : Text) ∈ n.descriptor.childNames := by
      rw [← star, ← built.childNames member]
      exact List.mem_map_of_mem child
    have object := (apart n member m known star listed).resolve_right crowded
    have unlike : c.name ≠ "*" := fun same => built.no_own_child known
      (built.eq_of_name (built.shaped.child_member known grandchild) known (same.trans star.symm) ▸ grandchild)
    rcases built.parent_kind member child with kind | kind
    · obtain ⟨members, rfl, _⟩ := (built.conforms_object member kind).mp conforms
      rw [kind, object, star]
      refine (congrArg (List.flatMap _) (finding.star members)).trans ?_
      refine (flatMap_only keyed.distinct fun entry inside other => ?_).trans
        (congrArg (List.flatMap _) (Segment.values_field "*" members).symm)
      refine (finding.field unlike _).trans ?_
      rw [built.siblings_lack keyed conforms member kind child grandchild entry inside (star.symm ▸ other)]
      rfl
    · obtain ⟨only, single⟩ := built.element member kind
      rw [single, List.mem_singleton] at child
      rw [← built.childNames member, single, ← child, List.map_singleton, star] at crowded
      exact absurd rfl crowded

end Steps

section Selected

variable (finding : F.Lawful) (apart : t.StarsApart) (keyed : d.Keyed) (conforms : Conforms d t.trunk)
include finding apart keyed conforms

/-- What the path of a child selects is what its step leads to from the sites of the parent. -/
theorem selected_from : ∀ n ∈ t.nodes, ∀ m ∈ childNodes t.nodes n,
    m.selected F d = ((n.sites d).map Prod.snd).flatMap (F.lead (.ofSegment (.below n.kind m.name))) := by
  refine built.downward (fun m child => ?_) fun n member m child above c grandchild => ?_
  · rw [built.selected_child finding built.root_member child, built.selected_root finding, built.sites_root]
    rfl
  · have known := built.shaped.child_member member child
    rw [built.selected_child finding known grandchild, above m child, built.sites_child member child,
      Segment.values_follow, List.flatMap_assoc, List.flatMap_assoc]
    refine List.flatMap_congr fun v found => ?_
    obtain ⟨vKeyed, vConforms⟩ := built.sites_conform keyed conforms member v found
    exact built.select_through finding vKeyed vConforms apart member child grandchild

/-- The path of a leaf selects what stands at its sites. -/
theorem selected_leaf (member : n ∈ t.nodes) (primitive : n.kind.isPrimitive) :
    n.selected F d = (n.sites d).map Prod.snd := by
  rcases built.root_or_child member with rfl | ⟨p, known, child⟩
  · rw [built.selected_root finding, built.sites_root]
    rfl
  · rw [built.selected_from finding apart keyed conforms p known n child, built.sites_child known child,
      Segment.values_follow]
    refine List.flatMap_congr fun v found => ?_
    obtain ⟨vKeyed, vConforms⟩ := built.sites_conform keyed conforms known v found
    refine built.select_below finding vKeyed vConforms known child fun star => ?_
    have listed : ("*" : Text) ∈ p.descriptor.childNames := by
      rw [← star, ← built.childNames known]
      exact List.mem_map_of_mem child
    refine (apart p known n member star listed).resolve_left fun object => ?_
    rw [object] at primitive
    cases primitive

end Selected

end Built

end SchemaTree

end PayloadSchema
