import PayloadSchema.Proofs.Matching.RenumberedSearch
import PayloadSchema.Proofs.Tree.FirstFailure

/-! The order of descriptors. A tree is told by the descriptors alone, whatever the order in which they come: built
from another order it has the same nodes at other positions, and everything that is told without positions stays
the same. -/
namespace PayloadSchema

namespace SchemaTree
open Arena Descriptor

/-- The position in the second tree of the node that has the name of the node at a position of the first one. -/
def renumbering (t u : SchemaTree) (p : Position) : Position :=
  ((nodeAt? t.nodes p).bind fun n => (u.node? n.name).map (·.index)).getD p

/-- Nodes of two trees that stand for the same descriptor. -/
structure Twins (t u : SchemaTree) (n m : Node) : Prop where
  first : n ∈ t.nodes
  second : m ∈ u.nodes
  same : m.descriptor = n.descriptor

section Reordered
variable {t u : SchemaTree} {n m c e : Node}

theorem Twins.symm (twins : Twins t u n m) : Twins u t m n := ⟨twins.second, twins.first, twins.same.symm⟩

theorem twin (same : (t.nodes.map (·.descriptor)).Perm (u.nodes.map (·.descriptor))) (known : n ∈ t.nodes) :
    ∃ m, Twins t u n m := by
  obtain ⟨m, other, twins⟩ := List.mem_map.mp (same.mem_iff.mp (List.mem_map_of_mem known))
  exact ⟨m, known, other, twins⟩

variable (builtT : t.Built) (builtU : u.Built)
include builtT builtU

theorem twins_kind (twins : Twins t u n m) : m.kind = n.kind := by
  obtain ⟨_, _, _, _, _, _, grownT⟩ := builtT.grown
  obtain ⟨_, _, _, _, _, _, grownU⟩ := builtU.grown
  exact declares_unique (grown_kind grownU twins.second).2.1 (twins.same ▸ (grown_kind grownT twins.first).2.1)

/-- Twins have twins for children. -/
theorem twins_child (twins : Twins t u n m) (pair : Twins t u c e) :
    e ∈ childNodes u.nodes m ↔ c ∈ childNodes t.nodes n := by
  rw [builtT.listed_iff twins.first pair.first, builtU.listed_iff twins.second pair.second, twins.same, Node.name,
    Node.name, pair.same]

theorem twins_index (twins : Twins t u n m) : renumbering t u n.index = m.index := by
  have names : n.name = m.name := congrArg Descriptor.name twins.same.symm
  rw [renumbering, builtT.shaped.at_index twins.first, Option.bind_some, names, builtU.node_named twins.second]
  rfl

variable (same : (t.nodes.map (·.descriptor)).Perm (u.nodes.map (·.descriptor)))
include same

theorem twins_root (twins : Twins t u t.root m) : m = u.root := by
  rcases builtU.root_or_child twins.second with top | ⟨q, above, child⟩
  · exact top
  · obtain ⟨p, pair⟩ := twin same.symm above
    exact absurd ((twins_child builtT builtU pair.symm twins).mp child) (builtT.root_no_child pair.second)

/-- Twins stand at the same place. -/
theorem twins_place : ∀ n ∈ t.nodes, ∀ m, Twins t u n m → m.segments = n.segments ∧ m.depth = n.depth := by
  refine builtT.downward (fun m twins => ?_) fun n known c child above e pair => ?_
  · rw [twins_root builtT builtU same twins, builtT.root_segments, builtU.root_segments, builtT.root_depth,
      builtU.root_depth]
    exact ⟨rfl, rfl⟩
  · obtain ⟨m, twins⟩ := twin same known
    have below := (twins_child builtT builtU twins pair).mpr child
    obtain ⟨segments, depth⟩ := above m twins
    rw [builtT.child_segments known child, builtU.child_segments twins.second below, builtT.depth_child known child,
      builtU.depth_child twins.second below, segments, depth, twins_kind builtT builtU twins, Node.name, Node.name,
      pair.same]
    exact ⟨rfl, rfl⟩

theorem twins_parent (twins : Twins t u n m) : n.parent.map (renumbering t u) = m.parent := by
  rcases builtT.root_or_child twins.first with rfl | ⟨p, above, child⟩
  · rw [twins_root builtT builtU same twins, builtT.root_parent, builtU.root_parent]
    rfl
  · obtain ⟨q, pair⟩ := twin same above
    have below := (twins_child builtT builtU pair twins).mpr child
    rw [((builtT.shaped.mem_childNodes above).mp child).2, ((builtU.shaped.mem_childNodes pair.second).mp below).2,
      Option.map_some, twins_index builtT builtU pair]

/-- Both list the positions of the names that the descriptor lists. -/
theorem twins_children (twins : Twins t u n m) : n.children.map (renumbering t u) = m.children := by
  let place (s : Text) : Position := ((u.node? s).map (·.index)).getD 0
  have there : ∀ e ∈ u.nodes, place e.name = e.index := fun e known => by simp [place, builtU.node_named known]
  have here : ∀ c ∈ t.nodes, place c.name = renumbering t u c.index := fun c known => by
    obtain ⟨e, pair⟩ := twin same known
    rw [twins_index builtT builtU pair, ← there e pair.second, Node.name, Node.name, pair.same]
  calc n.children.map (renumbering t u)
      = (childNodes t.nodes n).map fun c => renumbering t u c.index := by
        rw [← builtT.shaped.childNodes_index twins.first, List.map_map]; rfl
    _ = (childNodes t.nodes n).map fun c => place c.name :=
        List.map_congr_left fun c child => (here c (builtT.shaped.child_member twins.first child)).symm
    _ = n.descriptor.childNames.map place := by rw [← builtT.childNames twins.first, List.map_map]; rfl
    _ = (childNodes u.nodes m).map fun e => place e.name := by
        rw [← twins.same, ← builtU.childNames twins.second, List.map_map]; rfl
    _ = (childNodes u.nodes m).map (·.index) :=
        List.map_congr_left fun e child => there e (builtU.shaped.child_member twins.second child)
    _ = m.children := builtU.shaped.childNodes_index twins.second

theorem renumbered_twin (twins : Twins t u n m) : n.renumbered (renumbering t u) = m := by
  have index := twins_index builtT builtU twins
  have kind := twins_kind builtT builtU twins
  have parent := twins_parent builtT builtU same twins
  have children := twins_children builtT builtU same twins
  obtain ⟨segments, depth⟩ := twins_place builtT builtU same n twins.first m twins
  have path : m.path = n.path := by rw [builtU.path_eq twins.second, builtT.path_eq twins.first, segments]
  have descriptor := twins.same
  rcases m with ⟨⟨_, _⟩, _, _, _, _, _⟩
  simp_all only [Node.renumbered]

theorem reordered_nodes : u.nodes.Perm (t.nodes.map (·.renumbered (renumbering t u))) := by
  have changed : ∀ n ∈ t.nodes, Twins t u n (n.renumbered (renumbering t u)) := fun n known => by
    obtain ⟨m, twins⟩ := twin same known
    rwa [renumbered_twin builtT builtU same twins]
  have distinct : (t.nodes.map (·.renumbered (renumbering t u))).Nodup := by
    refine builtT.shaped.nodes_nodup.map_on fun n one m other equal => builtT.eq_of_name one other ?_
    exact congrArg (·.descriptor.name) equal
  refine (List.perm_ext_iff_of_nodup builtU.shaped.nodes_nodup distinct).mpr fun m => ?_
  rw [List.mem_map]
  constructor
  · intro known
    obtain ⟨n, twins⟩ := twin same.symm known
    exact ⟨n, twins.second, renumbered_twin builtT builtU same twins.symm⟩
  · rintro ⟨n, known, rfl⟩
    exact (changed n known).second

/-- Trees of the same descriptors in another order have the same nodes at other positions. -/
theorem reordered_renumbers (limits : u.limits = t.limits) (descriptors : u.descriptors.Perm t.descriptors) :
    Renumbers (renumbering t u) t u where
  nodes := reordered_nodes builtT builtU same
  root := by
    obtain ⟨m, twins⟩ := twin same builtT.root_member
    rw [renumbered_twin builtT builtU same twins, twins_root builtT builtU same twins]
  descriptors := descriptors
  limits := limits

end Reordered

/-- What does not depend on the order of the descriptors: everything but the positions of the nodes. -/
structure Alike (t u : SchemaTree) : Prop where
  /-- The nodes are the same up to a change of positions. -/
  renumbered : ∃ σ, Renumbers σ t u
  profiles : ∃ shown, t.preorder.mapM t.profile = .ok shown ∧ u.preorder.mapM u.profile = .ok shown
  leaves : ∃ shown, t.leaves.mapM t.profile = .ok shown ∧ u.leaves.mapM u.profile = .ok shown
  paths : t.paths = u.paths
  examples : t.exampleMessage = u.exampleMessage ∧ t.exampleDocument = u.exampleDocument
  schema : t.schema = u.schema
  listing : t.listing = u.listing
  /-- Any pattern is found below the same nodes, with the same maps in the same order. -/
  searches : ∀ (assigner : Assigner) (pattern : Branch),
    (t.findSubtree assigner pattern).map (fun hit => (hit.node.name, hit.maps)) =
      (u.findSubtree assigner pattern).map fun hit => (hit.node.name, hit.maps)
  leafPaths : ∀ pattern : Branch, t.leafPathsFor pattern = u.leafPathsFor pattern

theorem profiles_shown {t : SchemaTree} (built : t.Built) {ns : List Node} (known : ∀ n ∈ ns, n ∈ t.nodes) :
    ∃ shown, ns.mapM t.profile = .ok shown := by
  induction ns with
  | nil => exact ⟨[], rfl⟩
  | cons n rest ih =>
    obtain ⟨here, others⟩ := List.forall_mem_cons.mp known
    obtain ⟨first, shown⟩ := built.profile_ok here
    obtain ⟨later, listed⟩ := ih others
    exact ⟨first :: later, by rw [List.mapM_cons, shown, listed]; rfl⟩

theorem Renumbers.alike {σ : Position → Position} {t u : SchemaTree} (re : Renumbers σ t u) (builtT : t.Built)
    (builtU : u.Built) : Alike t u where
  renumbered := ⟨σ, re⟩
  profiles := by
    have known : ∀ n ∈ t.preorder, n ∈ t.nodes := fun n => builtT.mem_preorder.mp
    obtain ⟨shown, listed⟩ := profiles_shown builtT known
    exact ⟨shown, listed, by rw [re.preorder builtT builtU, re.profiles builtT builtU known, listed]⟩
  leaves := by
    have known : ∀ n ∈ t.leaves, n ∈ t.nodes := fun n leaf => builtT.mem_preorder.mp (List.mem_filter.mp leaf).1
    obtain ⟨shown, listed⟩ := profiles_shown builtT known
    exact ⟨shown, listed, by rw [re.leaves builtT builtU, re.profiles builtT builtU known, listed]⟩
  paths := (re.paths builtT builtU).symm
  examples := by
    have document := re.exampleDocument builtT builtU
    exact ⟨by rw [exampleMessage, exampleMessage, document], document.symm⟩
  schema := (re.schema builtT builtU).symm
  listing := (re.listing builtT builtU).symm
  searches assigner pattern := by
    rw [re.findSubtree builtT builtU assigner pattern, List.map_map]
    rfl
  leafPaths pattern := (re.leafPathsFor builtT builtU pattern).symm

/-- Outcomes that do not differ in what a list of descriptors is worth: trees that are alike, or refusals by the same
stage. -/
inductive SameOutcome : Outcome → Outcome → Prop where
  | built {t u : SchemaTree} (alike : Alike t u) : SameOutcome (.built t) (.built u)
  | rejected {ps qs : List Problem} {stage : Stage} (first : (Outcome.rejected ps).stage? = some stage)
      (second : (Outcome.rejected qs).stage? = some stage) : SameOutcome (.rejected ps) (.rejected qs)

/-- Trees that were built from the same descriptors in different orders are alike. -/
theorem reordered_alike {limits : Limits} {ds es : List Descriptor} (perm : ds.Perm es) {t u : SchemaTree}
    (one : build limits ds = .ok (.built t)) (other : build limits es = .ok (.built u)) : Alike t u := by
  obtain ⟨_, _, _, _, grownT⟩ := grown_of_build one
  obtain ⟨_, _, _, _, grownU⟩ := grown_of_build other
  have builtT : t.Built := ⟨limits, ds, one⟩
  have builtU : u.Built := ⟨limits, es, other⟩
  have same : (t.nodes.map (·.descriptor)).Perm (u.nodes.map (·.descriptor)) := by
    rw [grown_names grownT, grown_names grownU]
    exact perm.map normal
  have sameLimits : u.limits = t.limits := by rw [grownT.built, grownU.built]; rfl
  have descriptors : u.descriptors.Perm t.descriptors := by
    rw [grownT.built, grownU.built]
    exact perm.symm.map normal
  exact (reordered_renumbers builtT builtU same sameLimits descriptors).alike builtT builtU

/-- Answers to lists of descriptors that are worth the same: outcomes that do not differ, or none on both sides, where
the same stage finds what cannot be written. -/
inductive SameAnswer : Except Defect Outcome → Except Defect Outcome → Prop where
  | told {o r : Outcome} (same : SameOutcome o r) : SameAnswer (.ok o) (.ok r)
  | untold {p q : Problem} (first : p.isWritable = false) (second : q.isWritable = false) (stage : p.stage = q.stage) :
      SameAnswer (.error (.unwritable p)) (.error (.unwritable q))

section Verdicts
variable {limits : Limits} {ds es : List Descriptor} (perm : ds.Perm es) {o r : Outcome}
  (one : examine limits ds = .ok o) (other : examine limits es = .ok r)
  (verdict : Verdict limits ds o) (reordered : Verdict limits es r)
include perm one other verdict reordered

theorem examine_reordered : SameOutcome o r := by
  have stages := failing_unique (failing_perm perm (verdict_failing verdict)) (verdict_failing reordered)
  cases verdict with
  | built _ =>
    cases reordered with
    | built _ => exact .built (reordered_alike perm (build_built one) (build_built other))
    | rejected _ report given =>
      rw [rejected_stage report given] at stages
      cases stages
  | rejected _ report given =>
    have first := rejected_stage report given
    cases reordered with
    | built _ =>
      rw [first] at stages
      cases stages
    | rejected _ _ _ => exact .rejected first (stages ▸ first)

omit one in
/-- Where a problem cannot be written, none of the orders is told anything. -/
theorem untold_reordered {p : Problem} (listed : p ∈ o.problems) (long : p.isWritable = false) :
    SameAnswer (.error (.unwritable p)) (build limits es) := by
  have there := unwritable_perm perm verdict reordered listed long
  obtain ⟨q, found, _, tooLong, failed⟩ := (build_told other).long p there long
  rw [failed]
  refine .untold long tooLong (Option.some.inj ?_)
  rw [← verdict_stage reordered p there, ← verdict_stage reordered q found]

end Verdicts

/-- Building does not depend on the order of the descriptors. -/
theorem build_reordered (limits : Limits) {ds es : List Descriptor} (perm : ds.Perm es) :
    SameAnswer (build limits ds) (build limits es) := by
  obtain ⟨o, one, verdict⟩ := examine_verdict limits ds
  obtain ⟨r, other, reordered⟩ := examine_verdict limits es
  rcases build_cases one with told | ⟨p, listed, _, long, failed⟩
  · rcases build_cases other with again | ⟨q, listed, _, long, failed⟩
    · rw [told, again]
      exact .told (examine_reordered perm one other verdict reordered)
    · have there := unwritable_perm perm.symm reordered verdict listed long
      obtain ⟨_, _, _, _, untold⟩ := (build_told one).long q there long
      cases told.symm.trans untold
  · rw [failed]
    exact untold_reordered perm other verdict reordered listed long

/-- Built from the last descriptor to the first, a device has its nodes at other positions and looks the same. -/
theorem device_reversed : device.Perm device.reverse ∧ ∃ t u, build {} device = .ok (.built t) ∧
    build {} device.reverse = .ok (.built u) ∧
    t.nodes.map (·.name) = (["reading", "device", "sample", "samples"] : List Text) ∧
    u.nodes.map (·.name) = (["samples", "sample", "device", "reading"] : List Text) ∧ Alike t u := by
  have perm : device.Perm device.reverse := device.reverse_perm.symm
  obtain ⟨t, one, forwards⟩ := built_with {} device (fun t => t.nodes.map (·.name))
    (["reading", "device", "sample", "samples"] : List Text) (by decide +kernel)
  obtain ⟨u, other, backwards⟩ := built_with {} device.reverse (fun t => t.nodes.map (·.name))
    (["samples", "sample", "device", "reading"] : List Text) (by decide +kernel)
  have same := build_reordered {} perm
  rw [one, other] at same
  cases same with
  | told same =>
    cases same with
    | built alike => exact ⟨perm, t, u, one, other, forwards, backwards, alike⟩

end SchemaTree

end PayloadSchema
