import PayloadSchema.Proofs.Descriptor.Breaches
import PayloadSchema.Proofs.Matching.Isomorphisms
import PayloadSchema.Proofs.Tree.Lineage

/-! The order of siblings. Descriptors that list their children in another order make a tree when the others do, and
every node of the one tree has a node of the same name in the other with an isomorphic subtree. -/
namespace PayloadSchema

namespace Descriptor

/-- The same descriptor, but for the order of its children. -/
structure Rearranged (d e : Descriptor) : Prop where
  kept : e = { d with children := e.children }
  children : e.childNames.Perm d.childNames

variable {limits : Limits} {ds es : List Descriptor} {d e : Descriptor} {kind : NodeType} {k : Nat}

namespace Rearranged

theorem symm (same : Rearranged d e) : Rearranged e d where
  kept := by
    rw [same.kept]
  children := same.children.symm

theorem name (same : Rearranged d e) : e.name = d.name := by
  rw [same.kept]

theorem parent (same : Rearranged d e) : e.parent = d.parent := by
  rw [same.kept]

theorem declares (same : Rearranged d e) : e.Declares kind ↔ d.Declares kind := by
  rw [same.kept]
  rfl

theorem shaped (same : Rearranged d e) (shaped : d.Shaped limits kind) : e.Shaped limits kind := by
  have size : e.size = d.size := by rw [same.kept]
  have count := same.children.length_eq
  have barren : e.childNames = [] ↔ d.childNames = [] := by
    rw [← List.length_eq_zero_iff, count, List.length_eq_zero_iff]
  cases kind <;> simpa only [Shaped, ne_eq, barren, count, size] using shaped

theorem normalizeAs (same : Rearranged d e) (kind : NodeType) :
    Rearranged (d.normalizeAs kind) (e.normalizeAs kind) where
  kept := by
    rw [same.kept]
    rfl
  children := same.children

theorem normal (same : Rearranged d e) : Rearranged d.normal e.normal := by
  have kinds : e.kind? = d.kind? := by
    rw [same.kept]
    rfl
  rw [Descriptor.normal, Descriptor.normal, kinds]
  exact same.normalizeAs _

end Rearranged

variable (same : List.Forall₂ Rearranged ds es)
include same

/-- Every descriptor stands for one in the first list. -/
theorem rearranged_origin (member : e ∈ es) : ∃ d ∈ ds, Rearranged d e := forall₂_partner same.flip member

theorem climbs_rearranged (climbs : Climbs ds k d) : ∀ e ∈ es, Rearranged d e → Climbs es k e := by
  induction climbs with
  | top _ parentless => exact fun e member kin => .top member (kin.parent.trans parentless)
  | @up k d f _ named above ih =>
    intro e member kin
    obtain ⟨g, known, other⟩ := forall₂_partner same (climbs_member above)
    exact .up member (kin.parent.trans (named.trans other.name.symm)) (ih g known other)

theorem filter_rearranged : List.Forall₂ Rearranged (ds.filter (·.parent = [])) (es.filter (·.parent = [])) := by
  induction same with
  | nil => exact .nil
  | @cons d e _ _ kin _ ih =>
    by_cases parentless : d.parent = []
    · simpa [parentless, kin.parent] using List.Forall₂.cons kin ih
    · simpa [parentless, kin.parent] using ih

/-- Whether descriptors make a tree does not depend on the order of children. -/
theorem forms_rearranged (forms : FormsTree limits ds) : FormsTree limits es where
  named e member := by
    obtain ⟨d, known, kin⟩ := rearranged_origin same member
    exact kin.name ▸ forms.named d known
  typed e member := by
    obtain ⟨d, known, kin⟩ := rearranged_origin same member
    obtain ⟨kind, declared, shaped⟩ := forms.typed d known
    exact ⟨kind, kin.declares.mpr declared, kin.shaped shaped⟩
  distinct := by
    have keys : ds.map key = es.map key := by
      rw [← List.forall₂_eq_eq_eq, List.forall₂_map_left_iff, List.forall₂_map_right_iff]
      exact same.imp fun d e kin => congrArg Text.lowercase kin.name.symm
    exact keys ▸ forms.distinct
  rooted := by
    obtain ⟨root, alone, object⟩ := forms.rooted
    have listed := filter_rearranged same
    rw [alone] at listed
    obtain ⟨e, rest, kin, others, single⟩ := List.forall₂_cons_left_iff.mp listed
    exact ⟨e, by rw [single, List.forall₂_nil_left_iff.mp others], kin.declares.mpr object⟩
  listed e member := by
    obtain ⟨d, known, kin⟩ := rearranged_origin same member
    obtain ⟨once, names⟩ := forms.listed d known
    refine ⟨kin.children.nodup_iff.mpr once, fun s listed => ?_⟩
    obtain ⟨child, found, named⟩ := names s (kin.children.subset listed)
    obtain ⟨other, standing, sibling⟩ := forall₂_partner same found
    exact ⟨other, standing, sibling.name.trans named⟩
  agree e one f other := by
    obtain ⟨d, known, kin⟩ := rearranged_origin same one
    obtain ⟨c, child, sibling⟩ := rearranged_origin same other
    rw [kin.children.mem_iff, sibling.name, sibling.parent, kin.name]
    exact forms.agree d known c child
  climbs e member := by
    obtain ⟨d, known, kin⟩ := rearranged_origin same member
    obtain ⟨k, bound, climbs⟩ := forms.climbs d known
    exact ⟨k, bound, climbs_rearranged same climbs e member kin⟩

end Descriptor

namespace SchemaTree
open Arena Descriptor Branch Matching

variable {t u : SchemaTree} {n m : Node}

/-- Every node of the first tree has a node in the second whose descriptor differs in the order of children at most. -/
def Kin (t u : SchemaTree) : Prop := ∀ n ∈ t.nodes, ∃ m ∈ u.nodes, Rearranged n.descriptor m.descriptor

/-- Descriptors with their children in another order make a tree of the same nodes. -/
theorem build_rearranged {limits : Limits} {ds es : List Descriptor} (same : List.Forall₂ Rearranged ds es)
    (built : build limits ds = .ok (.built t)) : ∃ u, build limits es = .ok (.built u) ∧ Kin t u ∧ Kin u t := by
  obtain ⟨_, _, _, _, grownT⟩ := grown_of_build built
  have forms := forms_rearranged same (forms_normal.mp grownT.forms)
  rcases build_outcome limits es with ⟨u, _, _, _, _, ran, grownU⟩ | ⟨formless, _⟩
  · have nodes : List.Forall₂ Rearranged (t.nodes.map (·.descriptor)) (u.nodes.map (·.descriptor)) := by
      rw [grown_names grownT, grown_names grownU, List.forall₂_map_left_iff, List.forall₂_map_right_iff]
      exact same.imp fun _ _ => Rearranged.normal
    rw [List.forall₂_map_left_iff, List.forall₂_map_right_iff] at nodes
    refine ⟨u, ran, fun n member => forall₂_partner nodes member, fun m member => ?_⟩
    obtain ⟨n, known, kin⟩ := forall₂_partner nodes.flip member
    exact ⟨n, known, kin.symm⟩
  · exact absurd forms formless

/-- The node of the same name. -/
def namesake (u : SchemaTree) (n : Node) : Node := (u.node? n.name).getD n

section Namesakes
variable (builtT : t.Built) (builtU : u.Built) (kin : Kin t u)
include builtU kin

theorem namesake_spec (member : n ∈ t.nodes) :
    u.namesake n ∈ u.nodes ∧ Rearranged n.descriptor (u.namesake n).descriptor ∧
      u.node? n.name = some (u.namesake n) := by
  obtain ⟨m, known, same⟩ := kin n member
  have found : u.node? n.name = some m := by
    rw [Node.name, ← same.name]
    exact builtU.node_named known
  rw [namesake, found]
  exact ⟨known, same, rfl⟩

theorem namesake_name (member : n ∈ t.nodes) : (u.namesake n).name = n.name :=
  (namesake_spec builtU kin member).2.1.name

include builtT

theorem namesake_kind (member : n ∈ t.nodes) : (u.namesake n).kind = n.kind := by
  obtain ⟨known, same, _⟩ := namesake_spec builtU kin member
  obtain ⟨_, _, _, _, _, _, grownT⟩ := builtT.grown
  obtain ⟨_, _, _, _, _, _, grownU⟩ := builtU.grown
  exact declares_unique (grown_kind grownU known).2.1 (same.declares.mpr (grown_kind grownT member).2.1)

/-- The children of a namesake are the namesakes of the children. -/
theorem namesake_children (back : Kin u t) (member : n ∈ t.nodes) :
    u.namesake '' t.childSet n = u.childSet (u.namesake n) := by
  obtain ⟨known, same, _⟩ := namesake_spec builtU kin member
  have listed : ∀ m ∈ t.nodes, u.namesake m ∈ u.childSet (u.namesake n) ↔ m ∈ t.childSet n := fun m standing => by
    rw [builtU.mem_childSet known, builtT.mem_childSet member,
      builtU.listed_iff known (namesake_spec builtU kin standing).1, builtT.listed_iff member standing,
      namesake_name builtU kin standing, same.children.mem_iff]
  ext e
  constructor
  · rintro ⟨m, child, rfl⟩
    exact (listed m (builtT.shaped.child_member member ((builtT.mem_childSet member).mp child))).mpr child
  · intro child
    have standing := builtU.shaped.child_member known ((builtU.mem_childSet known).mp child)
    obtain ⟨m, origin, alike⟩ := back e standing
    have again : u.namesake m = e := by
      refine builtU.eq_of_name (namesake_spec builtU kin origin).1 standing ?_
      rw [namesake_name builtU kin origin]
      exact alike.name
    exact ⟨m, (listed m origin).mp (again ▸ child), again⟩

/-- A subtree is isomorphic to that of the namesake, name by name. -/
theorem namesake_isomorphism (back : Kin u t) (member : n ∈ t.nodes) : Isomorphism t u n (u.namesake n) u.namesake := by
  have known : ∀ x ∈ (t.branch n).preorder, x ∈ t.nodes := fun x inside =>
    builtT.mem_preorder.mp ((builtT.branch_sublist member).subset inside)
  have image := (namesake_spec builtU kin member).1
  refine isomorphism_of_aligned builtT builtU member image (aligned_of_local builtT builtU _ member rfl image
    (fun x one y other same => ?_) (fun x inside => namesake_kind builtT builtU kin (known x inside))
    fun x inside => namesake_children builtT builtU kin back (known x inside))
  have names := congrArg Node.name same
  rw [namesake_name builtU kin (known x one), namesake_name builtU kin (known y other)] at names
  exact builtT.eq_of_name (known x one) (known y other) names

end Namesakes

end SchemaTree

end PayloadSchema
