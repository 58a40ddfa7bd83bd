import Mathlib.Algebra.Group.Action.Defs
import PayloadSchema.Proofs.Matching.FanOutSearch
import PayloadSchema.Proofs.Tree.Lineage

/-! The work that a search makes. A search that keeps account of the arrangements it begins to list finds the same as
one that does not, and every arrangement is one of the children of some node of the pattern. Neither their sizes nor
the bound on the number of maps depend on the tree that is searched. -/
namespace PayloadSchema.Matching
open Arrangements Branch

variable (assigner : Assigner)

/-- The arrangements of the pattern's children that are listed when all pairs of children were compared, unless no
pairing is possible. -/
def begun (pattern : Branch) (pairs : List (List Maps)) : Option Arrangements :=
  let mask := maskOf pattern.children.length pairs
  if mask.isAssignable assigner then some { size := pattern.children.length, mask := some mask } else none

/-- A search that also keeps account of the arrangements that were begun, the last of them first. -/
abbrev Noting := StateT (List Arrangements) (StateM Memo)

/-- The correspondences of two branches whose types agree, with the arrangements noted that they are made of. -/
def combineNoted (candidate pattern : Branch) (pairs : List (List Maps)) : Noting Maps :=
  match begun assigner pattern pairs with
  | none => return none
  | some a => do
    modify (a :: ·)
    return answer (a.toList.flatMap (mapsOf candidate.children pattern.children pairs))

mutual

/-- The comparison of a candidate with a pattern, with account. -/
def matchPairNoted : Branch → Branch → Noting Maps
  | .mk node children, pattern => do
    let key := (node.index, pattern.node.index)
    match (← (get : StateM Memo Memo))[key]? with
    | some maps => return maps
    | none =>
      let maps ←
        if !mayMatch (.mk node children) pattern then pure none
        else if pattern.children.isEmpty then pure (some [[]])
        else do
          let pairs ← matchPairsNoted pattern.children children
          combineNoted assigner (.mk node children) pattern pairs
      (modify (·.insert key maps) : StateM Memo Unit)
      return maps
termination_by structural candidate => candidate

def matchPairsNoted (patterns : List Branch) : List Branch → Noting (List (List Maps))
  | [] => return []
  | candidate :: rest => do
    let row ← patterns.mapM fun pattern => matchPairNoted candidate pattern
    return row :: (← matchPairsNoted patterns rest)
termination_by structural candidates => candidates

end

def findAmongNoted (pattern : Branch) : List Branch → Noting (List Match)
  | [] => return []
  | candidate :: rest => do
    let maps ← matchPairNoted assigner candidate pattern
    let more ← findAmongNoted pattern rest
    match maps with
    | none => return more
    | some maps =>
      return ⟨candidate.node, Correspondence.maximalUnique (maps.map (rooted candidate pattern))⟩ :: more

section Accounts
variable {assigner : Assigner} {α β : Type} {P : Arrangements → Prop}

/-- An action with account that has the value and leaves the memory of one without, and that only begins arrangements of
some kind. -/
def Accounts (P : Arrangements → Prop) (noted : Noting α) (plain : StateM Memo α) : Prop :=
  ∀ before memo, ∃ more : List Arrangements, (∀ a ∈ more, P a) ∧
    (noted.run before).run memo = (((plain.run memo).1, more ++ before), (plain.run memo).2)

theorem accounts_lift (action : StateM Memo α) : Accounts P (liftM action : Noting α) action :=
  fun _ _ => ⟨[], List.forall_mem_nil _, rfl⟩

theorem accounts_pure (value : α) : Accounts P (pure value) (pure value) := accounts_lift (pure value)

theorem accounts_bind {noted : Noting α} {plain : StateM Memo α} {next : α → Noting β} {after : α → StateM Memo β}
    (first : Accounts P noted plain) (second : ∀ value, Accounts P (next value) (after value)) :
    Accounts P (noted >>= next) (plain >>= after) := by
  intro before memo
  obtain ⟨earlier, met, ran⟩ := first before memo
  obtain ⟨later, kept, went⟩ := second (plain.run memo).1 (earlier ++ before) (plain.run memo).2
  refine ⟨later ++ earlier, List.forall_mem_append.mpr ⟨kept, met⟩, ?_⟩
  have split : ((noted >>= next).run before).run memo =
      (fun r : (α × List Arrangements) × Memo => ((next r.1.1).run r.1.2).run r.2) ((noted.run before).run memo) := rfl
  rw [split, ran, List.append_assoc]
  exact went

theorem accounts_mapM {noted : α → Noting β} {plain : α → StateM Memo β} {xs : List α}
    (each : ∀ x ∈ xs, Accounts P (noted x) (plain x)) : Accounts P (xs.mapM noted) (xs.mapM plain) := by
  induction xs with
  | nil => exact accounts_pure []
  | cons x rest ih =>
    rw [List.mapM_cons, List.mapM_cons]
    have behind := ih fun y member => each y (List.mem_cons_of_mem x member)
    exact accounts_bind (each x List.mem_cons_self) fun _ => accounts_bind behind fun _ => accounts_pure _

theorem begun_size {p : Branch} {pairs : List (List Maps)} {a : Arrangements}
    (started : begun assigner p pairs = some a) :
    a.size = p.children.length := by
  simp only [begun] at started
  split at started
  · cases started
    rfl
  · cases started

/-- Maps are only made of the arrangements that are begun. -/
theorem combine_eq_begun (c p : Branch) (pairs : List (List Maps)) : combine assigner c p pairs =
    (begun assigner p pairs).bind fun a => answer (a.toList.flatMap (mapsOf c.children p.children pairs)) := by
  simp only [combine, begun]
  split
  · rw [Option.bind_some]
    split <;> simp [*, answer]
  · rfl

theorem accounts_combine {p : Branch} (kept : ∀ a : Arrangements, a.size = p.children.length → P a) (c : Branch)
    (pairs : List (List Maps)) :
    Accounts P (combineNoted assigner c p pairs) (pure (combine assigner c p pairs)) := by
  rw [combine_eq_begun, combineNoted]
  cases started : begun assigner p pairs with
  | none => exact accounts_pure none
  | some a =>
    intro before memo
    exact ⟨[a], List.forall_mem_singleton.mpr (kept a (begun_size started)), rfl⟩

/-- The same answer may be put down with account. -/
theorem accounts_store (key : Int × Int) (maps : Maps) :
    Accounts P (do (modify (·.insert key maps) : StateM Memo Unit); return maps)
      (do modify (·.insert key maps); return maps) :=
  accounts_bind (accounts_lift _) fun _ => accounts_pure maps

theorem accounts_matchPairs {candidates patterns : List Branch}
    (each : ∀ c ∈ candidates, ∀ p ∈ patterns, Accounts P (matchPairNoted assigner c p) (matchPair assigner c p)) :
    Accounts P (matchPairsNoted assigner patterns candidates) (matchPairs assigner patterns candidates) := by
  induction candidates with
  | nil => exact accounts_pure []
  | cons c rest ih =>
    rw [matchPairsNoted, matchPairs]
    have behind := ih fun d member => each d (List.mem_cons_of_mem c member)
    exact accounts_bind (accounts_mapM (each c List.mem_cons_self)) fun _ =>
      accounts_bind behind fun _ => accounts_pure _

variable {Q : Branch → Prop} (below : ∀ b, Q b → ∀ d ∈ b.children, Q d)
  (kept : ∀ b, Q b → ∀ a : Arrangements, a.size = b.children.length → P a)
include below kept

/-- Whatever a comparison begins are arrangements of the children of a branch of the pattern. -/
theorem accounts_matchPair (c : Branch) :
    ∀ p, Q p → Accounts P (matchPairNoted assigner c p) (matchPair assigner c p) := by
  induction c using Branch.induction with
  | mk n bs ih =>
    intro p known
    have store := accounts_store (P := P) (n.index, p.node.index)
    rw [matchPairNoted, matchPair]
    refine accounts_bind (accounts_lift get) fun memo => ?_
    -- The memory is the same with account and without, so what is remembered is, too.
    cases memo[(n.index, p.node.index)]? with
    | some maps => exact accounts_pure maps
    | none =>
      dsimp only
      by_cases refused : (!mayMatch (.mk n bs) p) = true
      · rw [if_pos refused, if_pos refused]
        exact accounts_bind (accounts_pure none) store
      · rw [if_neg refused, if_neg refused]
        by_cases leaf : p.children.isEmpty = true
        · rw [if_pos leaf, if_pos leaf]
          exact accounts_bind (accounts_pure (some [[]])) store
        · rw [if_neg leaf, if_neg leaf]
          have pairs := accounts_matchPairs fun b member q listed => ih b member q (below p known q listed)
          exact accounts_bind pairs fun found => accounts_bind (accounts_combine (kept p known) _ found) store

theorem accounts_findAmong {pattern : Branch} (known : Q pattern) (among : List Branch) :
    Accounts P (findAmongNoted assigner pattern among) (findAmong assigner pattern among) := by
  induction among with
  | nil => exact accounts_pure []
  | cons c rest ih =>
    rw [findAmongNoted, findAmong]
    refine accounts_bind (accounts_matchPair below kept c pattern known) fun maps => accounts_bind ih fun more => ?_
    cases maps with
    | none => exact accounts_pure more
    | some maps => exact accounts_pure _

end Accounts

theorem length_choices {α : Type} (xss : List (List α)) : (choices xss).length = (xss.map List.length).prod := by
  induction xss with
  | nil => rfl
  | cons xs rest ih =>
    rw [choices, List.length_flatMap, List.map_cons, List.prod_cons, ← ih]
    simp

theorem length_orderings (n : Nat) : (orderings n).length = n.factorial := by
  rw [orderings, List.length_mergeSort, List.length_permutations, List.length_range]

section Numbers
variable {c p : Branch} {weight : Branch → Nat} (light : ∀ d ∈ p.children, ∀ b, (maps b d).length ≤ weight d)
include light

/-- However the children are paired, there are no more choices than the product of what the pattern's children allow. -/
theorem choices_length_le (size : c.children.length = p.children.length) {order : List Nat}
    (perm : order.Perm (List.range p.children.length)) :
    (choices ((pairing c p order).map fun e => maps e.1 e.2)).length ≤ (p.children.map weight).prod := by
  have pairs : ∀ e ∈ pairing c p order, (maps e.1 e.2).length ≤ weight e.2 := fun e paired =>
    light e.2 (pairing_children size perm paired).2 e.1
  rw [length_choices, List.map_map]
  calc ((pairing c p order).map fun e => (maps e.1 e.2).length).prod
      ≤ ((pairing c p order).map fun e => weight e.2).prod := List.prod_le_prod' pairs
    _ = ((arranged p.children order).map weight).prod := by
      rw [← pairing_patterns size perm, List.map_map]
      rfl
    _ = (p.children.map weight).prod := ((arranged_perm perm).map weight).prod_eq

theorem maps_length_le (c : Branch) :
    (maps c p).length ≤ p.children.length.factorial * (p.children.map weight).prod := by
  rw [maps_eq]
  split
  · next same =>
    rw [List.length_flatMap, ← length_orderings, ← smul_eq_mul]
    refine (List.sum_le_card_nsmul _ _ fun count counted => ?_).trans_eq (by rw [List.length_map])
    obtain ⟨order, listed, rfl⟩ := List.mem_map.mp counted
    rw [List.length_map]
    exact choices_length_le light same.2 (mem_orderings.mp listed)
  · exact Nat.zero_le _

end Numbers

end PayloadSchema.Matching

namespace PayloadSchema.SchemaTree
open Arena Arrangements Branch Matching Matcher
open scoped Nat

variable {t u : SchemaTree} {n p : Node} {limit : Nat} {assigner : Assigner}

/-- The subtrees that look like the pattern, and the arrangements that the search begins, the last of them first. -/
def findNoted (t : SchemaTree) (assigner : Assigner) (pattern : Branch) : List Match × List Arrangements :=
  (((findAmongNoted assigner pattern (candidates t pattern)).run []).run ∅).1

/-- The number of ways to put the children of every node of a branch in order. -/
def orderCount (b : Branch) : Nat := (b.preorder.map fun x => x.children.length !).prod

namespace Built

variable (built : u.Built)
include built

theorem children_length (member : n ∈ u.nodes) : (u.branch n).children.length = n.children.length := by
  rw [built.children_branch member, List.length_map, ← built.shaped.childNodes_index member, List.length_map]

theorem orderCount_branch (member : n ∈ u.nodes) : orderCount (u.branch n) =
    (u.branch n).children.length ! * ((u.branch n).children.map orderCount).prod := by
  rw [orderCount, preorder_eq, node_branch, List.map_cons, List.prod_cons, beneath, List.map_flatMap, List.flatMap_def,
    List.prod_flatten, List.map_map, built.children_length member]
  rfl

/-- Whatever a pattern is compared with, it has one map at most for every way to put children in order. -/
theorem maps_length_le_orderCount :
    ∀ n ∈ u.nodes, ∀ c : Branch, (maps c (u.branch n)).length ≤ orderCount (u.branch n) := by
  refine built.upward fun n member below c => ?_
  rw [built.orderCount_branch member]
  refine maps_length_le (fun d child b => ?_) c
  rw [built.children_branch member] at child
  obtain ⟨m, known, rfl⟩ := List.mem_map.mp child
  exact below m known b

/-- Just below the branch of a node of a subtree there are branches of nodes of that subtree. -/
theorem branch_below (member : p ∈ u.nodes) : ∀ b, (∃ x ∈ u.subtree p, u.branch x = b) →
    ∀ d ∈ b.children, ∃ y ∈ u.subtree p, u.branch y = d := by
  rintro b ⟨x, known, rfl⟩ d child
  have standing := built.subtree_member member known
  rw [built.children_branch standing] at child
  obtain ⟨y, listed, rfl⟩ := List.mem_map.mp child
  exact ⟨y, child_mem_subtree known ((built.mem_childSet standing).mpr listed), rfl⟩

/-- Keeping account changes nothing, and what is begun are arrangements of the children of nodes of the pattern. -/
theorem findNoted (member : p ∈ u.nodes) (t : SchemaTree) (assigner : Assigner) :
    (t.findNoted assigner (u.branch p)).1 = t.findSubtree assigner (u.branch p) ∧
      ∀ a ∈ (t.findNoted assigner (u.branch p)).2, ∃ x ∈ u.subtree p, a.size = x.children.length := by
  have kept : ∀ b, (∃ x ∈ u.subtree p, u.branch x = b) → ∀ a : Arrangements, a.size = b.children.length →
      ∃ x ∈ u.subtree p, a.size = x.children.length := by
    rintro b ⟨x, known, rfl⟩ a size
    exact ⟨x, known, size.trans (built.children_length (built.subtree_member member known))⟩
  obtain ⟨more, met, ran⟩ := accounts_findAmong (built.branch_below member) kept ⟨p, .refl, rfl⟩
    (candidates t (u.branch p)) [] ∅
  have answered : t.findNoted assigner (u.branch p) = (t.findSubtree assigner (u.branch p), more) := by
    rw [SchemaTree.findNoted, ran, List.append_nil]
    rfl
  rw [answered]
  exact ⟨rfl, met⟩

end Built

/-- What the test of a pattern with a limit tells, and what it is good for. -/
structure FanOutTold (assigner : Assigner) (u : SchemaTree) (p : Node) (limit : Nat) : Prop where
  /-- A search with a stack ends, in one way only. -/
  ends : ∃! run : Nat × Bool, Searches u.nodes limit [p] run.1 run.2
  /-- It takes no more turns than the pattern has nodes, and its answer is that of the test. -/
  answered : ∀ turns wide, Searches u.nodes limit [p] turns wide →
    turns ≤ (u.branch p).preorder.length ∧ (u.branch p).exceedsFanOut (.whole limit) = .ok wide
  exact : ∃ wide, (u.branch p).exceedsFanOut (.whole limit) = .ok wide ∧
    (wide = true ↔ ∃ x ∈ u.subtree p, limit < x.children.length)
  /-- A pattern that passes the test bounds the work in every tree. -/
  bounded : (u.branch p).exceedsFanOut (.whole limit) = .ok false → ∀ t : SchemaTree, t.Built →
    (t.findNoted assigner (u.branch p)).1 = t.findSubtree assigner (u.branch p) ∧
    (∀ a ∈ (t.findNoted assigner (u.branch p)).2, a.size ≤ limit) ∧
    ∃ inside : Finset Node, (inside : Set Node) = u.subtree p ∧
      ∀ hit ∈ t.findSubtree assigner (u.branch p), hit.maps.length ≤ ∏ x ∈ inside, x.children.length !

/-- The test of a pattern is exact, and bounds what a search has to arrange and to list. -/
theorem fan_out_told (cheapest : assigner.Cheapest) (built : u.Built) (member : p ∈ u.nodes) (limit : Nat) :
    FanOutTold assigner u p limit where
  ends := by
    obtain ⟨turns, wide, searches⟩ := built.searches_end limit [p] (List.forall_mem_singleton.mpr member)
    exact ⟨(turns, wide), searches, fun _ other => Prod.ext_iff.mpr (searches_unique other searches)⟩
  answered turns wide searches := by
    obtain ⟨few, found⟩ := built.searches_answer searches (List.forall_mem_singleton.mpr member)
    rw [pending, List.flatMap_singleton] at few found
    exact ⟨few, by rw [exceedsFanOut_eq, Bool.eq_iff_iff.mpr (isWider_iff.trans found.symm)]⟩
  exact := ⟨_, exceedsFanOut_eq _ limit, built.isWider_branch_iff member⟩
  bounded narrow t builtT := by
    have within : ∀ x ∈ u.subtree p, x.children.length ≤ limit := by
      rw [exceedsFanOut_eq, Except.ok.injEq, Bool.eq_false_iff, ne_eq, built.isWider_branch_iff member] at narrow
      exact fun x inside => Nat.le_of_not_lt fun more => narrow ⟨x, inside, more⟩
    obtain ⟨same, sizes⟩ := built.findNoted member t assigner
    refine ⟨same, fun a begun => ?_, (u.branch p).preorder.toFinset, ?_, fun hit found => ?_⟩
    · obtain ⟨x, inside, size⟩ := sizes a begun
      exact size ▸ within x inside
    · ext x
      rw [Finset.mem_coe, List.mem_toFinset, built.mem_subtree member]
    · have distinct : (u.branch p).preorder.Nodup := .of_map _ (built.branch_distinct member)
      rw [(maps_of_found cheapest built builtT member found).2, List.length_map, List.prod_toFinset _ distinct]
      exact built.maps_length_le_orderCount p member _

/-- No node of a gauge has more than two children. -/
theorem gauge_narrow : Assigner.serving.Cheapest ∧ ∃ t : SchemaTree, t.Built ∧ t.root ∈ t.nodes ∧
    (t.branch t.root).exceedsFanOut (.whole 2) = .ok false ∧ FanOutTold .serving t t.root 2 := by
  obtain ⟨t, ran, narrow⟩ := built_with {} gauge (fun t => (t.branch t.root).isWider 2) false (by decide +kernel)
  have built : t.Built := ⟨_, _, ran⟩
  refine ⟨Assigner.serving_cheapest, t, built, built.root_member, ?_,
    fan_out_told Assigner.serving_cheapest built built.root_member 2⟩
  exact (exceedsFanOut_eq _ 2).trans (congrArg Except.ok narrow)

end PayloadSchema.SchemaTree
