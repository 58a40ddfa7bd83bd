import PayloadSchema.Proofs.Matching.SearchNeutrality
import PayloadSchema.Proofs.Tree.Renumbering

/-! Searches in trees that differ in positions only. The memory of a search is kept by positions, so two searches
remember under different keys; they run side by side nevertheless, for any pattern at all, and find the same. -/
namespace PayloadSchema.Matching

section SideBySide
variable {α β γ δ : Type} {I : Memo → Memo → Prop}

/-- Two actions that go on side by side: from memories that correspond they come to values that do, and to memories
that correspond again. -/
def Couples (I : Memo → Memo → Prop) (g : α → β) (one : StateM Memo α) (other : StateM Memo β) : Prop :=
  ∀ memo alike, I memo alike → (other.run alike).1 = g (one.run memo).1 ∧ I (one.run memo).2 (other.run alike).2

theorem couples_pure (g : α → β) (value : α) : Couples I g (pure value) (pure (g value)) :=
  fun _ _ held => ⟨rfl, held⟩

theorem couples_bind {g : α → β} {h : γ → δ} {one : StateM Memo α} {other : StateM Memo β} {next : α → StateM Memo γ}
    {after : β → StateM Memo δ} (first : Couples I g one other)
    (second : ∀ value, Couples I h (next value) (after (g value))) : Couples I h (one >>= next) (other >>= after) := by
  intro memo alike held
  obtain ⟨same, kept⟩ := first memo alike held
  have ran : (other >>= after).run alike = (after (other.run alike).1).run (other.run alike).2 := rfl
  rw [ran, same]
  exact second _ _ _ kept

theorem couples_mapM {action other : α → StateM Memo β} {xs : List α}
    (each : ∀ x ∈ xs, Couples I id (action x) (other x)) : Couples I id (xs.mapM action) (xs.mapM other) := by
  induction xs with
  | nil => exact couples_pure id []
  | cons x rest ih =>
    rw [List.mapM_cons, List.mapM_cons]
    have behind := ih fun y member => each y (List.mem_cons_of_mem x member)
    exact couples_bind (each x List.mem_cons_self) fun value => couples_bind behind fun values => couples_pure id _

end SideBySide

/-- The positions of some nodes stay different when they are changed. -/
def Apart (σ : Position → Position) (ns : List Node) : Prop :=
  ∀ n ∈ ns, ∀ m ∈ ns, σ n.index = σ m.index → n.index = m.index

/-- Of these nodes the same is remembered under the changed positions. -/
def Corresponds (σ : Position → Position) (ns : List Node) (memo alike : Memo) : Prop :=
  ∀ n ∈ ns, ∀ j : Int, alike[(σ n.index, j)]? = memo[(n.index, j)]?

variable {σ : Position → Position} {ns : List Node} {assigner : Assigner}

theorem insert_corresponds (apart : Apart σ ns) {memo alike : Memo} (same : Corresponds σ ns memo alike) {n : Node}
    (known : n ∈ ns) (j : Int) (maps : Maps) :
    Corresponds σ ns (memo.insert (n.index, j) maps) (alike.insert (σ n.index, j) maps) := by
  intro m member k
  have keys : (σ n.index, j) == (σ m.index, k) ↔ (n.index, j) == (m.index, k) := by
    simp only [beq_iff_eq, Prod.mk.injEq]
    exact and_congr_left fun _ => ⟨apart n known m member, congrArg σ⟩
  rw [Std.HashMap.getElem?_insert, Std.HashMap.getElem?_insert, same m member k, Bool.eq_iff_iff.mpr keys]

/-- The same answer may be put down in both memories. -/
theorem couples_store (apart : Apart σ ns) {n : Node} (known : n ∈ ns) (j : Int) (maps : Maps) :
    Couples (Corresponds σ ns) id (do modify (·.insert (n.index, j) maps); return maps)
      (do modify (·.insert (σ n.index, j) maps); return maps) :=
  fun _ _ same => ⟨rfl, insert_corresponds apart same known j maps⟩

theorem mayMatch_renumbered (c p : Branch) : mayMatch (c.renumbered σ) p = mayMatch c p := by
  have ranks : childRanks (c.renumbered σ).children = childRanks c.children := by
    simp [childRanks, Function.comp_def]
  rw [mayMatch, mayMatch, ranks, Branch.renumbered_kind, Branch.map_children, List.length_map]

theorem combine_renumbered (assigner : Assigner) (c p : Branch) (pairs : List (List Maps)) :
    combine assigner (c.renumbered σ) p pairs = combine assigner c p pairs := by
  have level : ∀ arrangement, levelMap (c.renumbered σ).children p.children arrangement =
      levelMap c.children p.children arrangement := fun arrangement => by
    simp [levelMap, List.zip_map_left, List.filterMap_map]
  have maps : mapsOf (c.renumbered σ).children p.children pairs = mapsOf c.children p.children pairs := by
    funext arrangement
    rw [mapsOf, mapsOf, level]
  rw [combine, combine, maps]

theorem couples_matchPairs {I : Memo → Memo → Prop} {candidates patterns : List Branch}
    (each : ∀ c ∈ candidates, ∀ p ∈ patterns,
      Couples I id (matchPair assigner c p) (matchPair assigner (c.renumbered σ) p)) :
    Couples I id (matchPairs assigner patterns candidates)
      (matchPairs assigner patterns (candidates.map (·.renumbered σ))) := by
  induction candidates with
  | nil => exact couples_pure id []
  | cons c rest ih =>
    rw [List.map_cons, matchPairs, matchPairs]
    have behind := ih fun d member => each d (List.mem_cons_of_mem c member)
    refine couples_bind (couples_mapM (each c List.mem_cons_self)) fun row => ?_
    exact couples_bind behind fun rows => couples_pure id _

/-- Comparing with a candidate whose positions are changed comes to the same. -/
theorem couples_matchPair (apart : Apart σ ns) (c : Branch) (known : ∀ n ∈ c.preorder, n ∈ ns) (p : Branch) :
    Couples (Corresponds σ ns) id (matchPair assigner c p) (matchPair assigner (c.renumbered σ) p) := by
  induction c using Branch.induction generalizing p with
  | mk n bs ih =>
    intro memo alike same
    have here : n ∈ ns := known n (Branch.node_mem_preorder (.mk n bs))
    have store := couples_store apart here p.node.index
    have refusal := mayMatch_renumbered (σ := σ) (.mk n bs) p
    have answer := combine_renumbered (σ := σ) assigner (.mk n bs) p
    simp only [Branch.renumbered, Branch.map_mk] at refusal answer ⊢
    have key : alike[((n.renumbered σ).index, p.node.index)]? = memo[(n.index, p.node.index)]? :=
      same n here p.node.index
    rw [matchPair, matchPair]
    simp only [StateT.run_bind, StateT.run_get, pure_bind, key, refusal, answer]
    -- Both memories hold the same answer for the pair, or neither holds any.
    cases memo[(n.index, p.node.index)]? with
    | some maps => exact ⟨rfl, same⟩
    | none =>
      dsimp only
      by_cases refused : (!mayMatch (.mk n bs) p) = true
      · rw [if_pos refused, if_pos refused]
        exact store none memo alike same
      · rw [if_neg refused, if_neg refused]
        by_cases leaf : p.children.isEmpty = true
        · rw [if_pos leaf, if_pos leaf]
          exact store (some [[]]) memo alike same
        · rw [if_neg leaf, if_neg leaf]
          have inside : ∀ b ∈ bs, ∀ m ∈ b.preorder, m ∈ ns := fun b member m listed =>
            known m (Branch.mem_preorder_of_beneath (Branch.mem_beneath member listed))
          have pairs : Couples (Corresponds σ ns) id (matchPairs assigner p.children bs)
              (matchPairs assigner p.children (bs.map (·.renumbered σ))) :=
            couples_matchPairs fun b member q _ => ih b member (inside b member) q
          exact couples_bind pairs (fun found => store _) memo alike same

/-- A match with the positions of its node changed. -/
def Match.renumbered (σ : Position → Position) (hit : Match) : Match := { hit with node := hit.node.renumbered σ }

theorem couples_findAmong (apart : Apart σ ns) (pattern : Branch) {among : List Branch}
    (known : ∀ c ∈ among, ∀ n ∈ c.preorder, n ∈ ns) :
    Couples (Corresponds σ ns) (·.map (·.renumbered σ)) (findAmong assigner pattern among)
      (findAmong assigner pattern (among.map (·.renumbered σ))) := by
  induction among with
  | nil => exact couples_pure _ []
  | cons c rest ih =>
    obtain ⟨here, others⟩ := List.forall_mem_cons.mp known
    rw [List.map_cons, findAmong, findAmong]
    refine couples_bind (couples_matchPair apart c here pattern) fun maps => couples_bind (ih others) fun more => ?_
    cases maps with
    | none => exact couples_pure _ more
    | some maps =>
      have roots : rooted (c.renumbered σ) pattern = rooted c pattern := by
        funext m
        rw [rooted, rooted, Branch.renumbered_name]
      simp only [id, roots, Branch.map_node]
      exact couples_pure (List.map (Match.renumbered σ)) (_ :: more)

end PayloadSchema.Matching

namespace PayloadSchema.SchemaTree.Renumbers
open Matching Matcher

variable {σ : Position → Position} {t u : SchemaTree} (re : Renumbers σ t u) (builtT : t.Built) (builtU : u.Built)
include re builtT builtU

/-- Whatever the pattern, a search in the other tree finds the changed nodes with the same maps. -/
theorem findSubtree (assigner : Assigner) (pattern : Branch) :
    u.findSubtree assigner pattern = (t.findSubtree assigner pattern).map (·.renumbered σ) := by
  have among : candidates u pattern = (candidates t pattern).map (·.renumbered σ) := by
    rw [candidates, candidates, re.preorder builtT builtU, List.filter_map, List.map_map, List.map_map]
    refine List.map_congr_left fun n listed => ?_
    exact re.branch builtT builtU (builtT.mem_preorder.mp (List.mem_filter.mp listed).1)
  have apart : Apart σ t.nodes := fun n one m other same => congrArg _ (re.apart builtT builtU one other same)
  have known : ∀ c ∈ candidates t pattern, ∀ n ∈ c.preorder, n ∈ t.nodes := by
    intro c listed n inside
    obtain ⟨m, member, rfl⟩ := candidate_known builtT listed
    exact builtT.mem_preorder.mp ((builtT.branch_sublist member).subset inside)
  rw [SchemaTree.findSubtree, SchemaTree.findSubtree, Matcher.find, Matcher.find, among]
  exact (couples_findAmong apart pattern known ∅ ∅ fun _ _ _ => by simp).1

end PayloadSchema.SchemaTree.Renumbers
