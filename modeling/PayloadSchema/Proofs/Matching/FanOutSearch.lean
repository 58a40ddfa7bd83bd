import PayloadSchema.Matching.FanOut
import PayloadSchema.Proofs.Matching.MapSets

/-! The test of a pattern before a search. It tells whether some node of the pattern has more children than a limit. A
search with a stack, which looks at one node in a turn, comes to the same answer, in no more turns than there are
nodes. -/
namespace PayloadSchema

namespace Branch

variable {limit : Nat}

theorem anyIsWider_eq (limit : Nat) (bs : List Branch) : anyIsWider limit bs = bs.any (isWider limit) := by
  induction bs with
  | nil => rfl
  | cons b rest ih => rw [anyIsWider, ih, List.any_cons]

theorem isWider_iff {b : Branch} : b.isWider limit ↔ ∃ x ∈ b.preorder, limit < x.children.length := by
  induction b using Branch.induction with
  | mk n bs ih =>
    have below : bs.any (isWider limit) ↔ ∃ x ∈ bs.flatMap preorder, limit < x.children.length := by
      simp only [List.any_eq_true, List.mem_flatMap]
      constructor
      · rintro ⟨b, listed, wide⟩
        obtain ⟨x, inside, more⟩ := (ih b listed).mp wide
        exact ⟨x, ⟨b, listed, inside⟩, more⟩
      · rintro ⟨x, ⟨b, listed, inside⟩, more⟩
        exact ⟨b, listed, (ih b listed).mpr ⟨x, inside, more⟩⟩
    rw [isWider, anyIsWider_eq, Bool.or_eq_true, decide_eq_true_iff, below, preorder_mk, List.exists_mem_cons_iff]

theorem exceedsFanOut_eq (b : Branch) (limit : Nat) : b.exceedsFanOut (.whole limit) = .ok (b.isWider limit) := by
  have allowed : fanOutLimit (.whole limit) = .ok limit := by simp [fanOutLimit, Amount.isBelow, Amount.most]
  rw [exceedsFanOut, allowed]
  rfl

end Branch

namespace SchemaTree
open Arena Branch

variable {u : SchemaTree} {n p : Node} {limit turns : Nat} {wide : Bool} {stack rest : List Node}

/-- A search for a node with more children than a limit, with the nodes that wait and the number of turns. A turn looks
at the node in front. A node with too many children is the end of it; the children of any other node are put in front,
the last of them first. -/
inductive Searches (nodes : List Node) (limit : Nat) : List Node → Nat → Bool → Prop where
  | nothing : Searches nodes limit [] 0 false
  | wide {n : Node} {rest : List Node} (more : limit < n.children.length) : Searches nodes limit (n :: rest) 1 true
  | narrow {n : Node} {kids rest : List Node} {turns : Nat} {answer : Bool} (fewer : n.children.length ≤ limit)
      (children : n.childrenIn nodes = .ok kids) (further : Searches nodes limit (kids.reverse ++ rest) turns answer) :
      Searches nodes limit (n :: rest) (turns + 1) answer

/-- A search can go one way only. -/
theorem searches_unique {nodes : List Node} {count : Nat} {other : Bool} (first : Searches nodes limit stack turns wide)
    (second : Searches nodes limit stack count other) : turns = count ∧ wide = other := by
  induction first generalizing count with
  | nothing =>
    cases second
    exact ⟨rfl, rfl⟩
  | wide more =>
    cases second with
    | wide _ => exact ⟨rfl, rfl⟩
    | narrow fewer _ _ => omega
  | narrow fewer children _ ih =>
    cases second with
    | wide more => omega
    | narrow _ same further =>
      obtain rfl := Except.ok.inj (children.symm.trans same)
      obtain ⟨rfl, rfl⟩ := ih further
      exact ⟨rfl, rfl⟩

/-- The nodes that are still to be looked at: those that wait, with all below them. -/
def pending (u : SchemaTree) (stack : List Node) : List Node := stack.flatMap fun n => (u.branch n).preorder

namespace Built

variable (built : u.Built)
include built

theorem pending_step (member : n ∈ u.nodes) (rest : List Node) :
    (u.pending (n :: rest)).Perm (n :: u.pending ((childNodes u.nodes n).reverse ++ rest)) := by
  have turned := ((childNodes u.nodes n).reverse_perm.flatMap_right fun m => (u.branch m).preorder).symm
  rw [pending, pending, List.flatMap_cons, built.branch_eq member, preorder_mk, List.flatMap_map, List.flatMap_append,
    List.cons_append]
  exact (turned.append_right _).cons n

theorem waiting_known (known : ∀ m ∈ n :: rest, m ∈ u.nodes) :
    ∀ m ∈ (childNodes u.nodes n).reverse ++ rest, m ∈ u.nodes := by
  obtain ⟨here, others⟩ := List.forall_mem_cons.mp known
  refine List.forall_mem_append.mpr ⟨fun m child => ?_, others⟩
  exact built.shaped.child_member here (List.mem_reverse.mp child)

/-- A search comes to an end. -/
theorem searches_end (limit : Nat) (stack : List Node) (known : ∀ n ∈ stack, n ∈ u.nodes) :
    ∃ turns wide, Searches u.nodes limit stack turns wide := by
  generalize size : (u.pending stack).length = left
  induction left using Nat.strong_induction_on generalizing stack with
  | _ left ih =>
    cases stack with
    | nil => exact ⟨0, false, .nothing⟩
    | cons n rest =>
      have member := known n List.mem_cons_self
      by_cases more : limit < n.children.length
      · exact ⟨1, true, .wide more⟩
      · have fewer := (built.pending_step member rest).length_eq
        rw [size, List.length_cons] at fewer
        obtain ⟨turns, wide, further⟩ := ih _ (by omega) _ (built.waiting_known known) rfl
        exact ⟨turns + 1, wide, .narrow (Nat.le_of_not_lt more) (built.shaped.childrenIn_eq member) further⟩

/-- A search looks at no node twice, and its answer is whether one of the nodes has too many children. -/
theorem searches_answer (searches : Searches u.nodes limit stack turns wide) (known : ∀ n ∈ stack, n ∈ u.nodes) :
    turns ≤ (u.pending stack).length ∧ (wide = true ↔ ∃ x ∈ u.pending stack, limit < x.children.length) := by
  induction searches with
  | nothing => simp [pending]
  | @wide n rest more =>
    have first := built.pending_step (known n List.mem_cons_self) rest
    rw [first.length_eq, List.length_cons]
    exact ⟨Nat.le_add_left 1 _, iff_of_true rfl ⟨n, first.symm.subset List.mem_cons_self, more⟩⟩
  | @narrow n kids rest turns answer fewer children _ ih =>
    have member := known n List.mem_cons_self
    obtain rfl := Except.ok.inj ((built.shaped.childrenIn_eq member).symm.trans children)
    obtain ⟨bound, found⟩ := ih (built.waiting_known known)
    have first := built.pending_step member rest
    rw [first.length_eq, List.length_cons]
    refine ⟨Nat.add_le_add_right bound 1, found.trans ?_⟩
    have skipped : ¬ limit < n.children.length := Nat.not_lt.mpr fewer
    simp only [first.mem_iff, List.exists_mem_cons_iff, skipped, false_or]

theorem isWider_branch_iff (member : p ∈ u.nodes) :
    (u.branch p).isWider limit ↔ ∃ x ∈ u.subtree p, limit < x.children.length := by
  rw [isWider_iff]
  exact exists_congr fun x => and_congr_left fun _ => (built.mem_subtree member).symm

end Built

end SchemaTree

end PayloadSchema
