import PayloadSchema.Proofs.Matching.PlainSearch
import PayloadSchema.Proofs.Tree.Structure

/-! The search and the plain search find the same. What is remembered is always the answer of the plain search, so it
does not matter which pairs were compared before, nor for which patterns. -/
namespace PayloadSchema.Matching

section Runs
variable {α β : Type} {I : Memo → Prop}

/-- An action that has this value whatever is remembered, if the memory is in order, and leaves it in order. -/
def Yields (I : Memo → Prop) (action : StateM Memo α) (value : α) : Prop :=
  ∀ memo, I memo → (action.run memo).1 = value ∧ I (action.run memo).2

theorem yields_pure (value : α) : Yields I (pure value) value := fun _ held => ⟨rfl, held⟩

theorem yields_bind {action : StateM Memo α} {next : α → StateM Memo β} {value : α} {result : β}
    (first : Yields I action value) (second : Yields I (next value) result) : Yields I (action >>= next) result := by
  intro memo held
  obtain ⟨same, after⟩ := first memo held
  have ran : (action >>= next).run memo = (next (action.run memo).1).run (action.run memo).2 := rfl
  rw [ran, same]
  exact second _ after

theorem yields_mapM {action : α → StateM Memo β} {value : α → β} {xs : List α}
    (each : ∀ x ∈ xs, Yields I (action x) (value x)) : Yields I (xs.mapM action) (xs.map value) := by
  induction xs with
  | nil => exact yields_pure []
  | cons x rest ih =>
    rw [List.mapM_cons]
    have behind := ih fun y member => each y (List.mem_cons_of_mem x member)
    exact yields_bind (each x List.mem_cons_self) (yields_bind behind (yields_pure _))

end Runs

/-- Branches that are told apart by the positions of their nodes, with all branches below them. -/
structure Family (F : Branch → Prop) : Prop where
  below : ∀ b, F b → ∀ c ∈ b.children, F c
  apart : ∀ b c, F b → F c → b.node.index = c.node.index → b = c

/-- Of these candidates and patterns only answers of the plain search are remembered. -/
def Agrees (C P : Branch → Prop) (memo : Memo) : Prop :=
  ∀ c p, C c → P p → ∀ maps, memo[(c.node.index, p.node.index)]? = some maps → maps = plainMatch c p

variable {C P : Branch → Prop} {assigner : Assigner}

theorem empty_agrees : Agrees C P ∅ := by
  intro c p _ _ maps stored
  simp at stored

theorem insert_agrees (candidates : Family C) (patterns : Family P) {memo : Memo} (agrees : Agrees C P memo)
    {c p : Branch} (cMember : C c) (pMember : P p) :
    Agrees C P (memo.insert (c.node.index, p.node.index) (plainMatch c p)) := by
  intro d q dMember qMember maps stored
  rw [Std.HashMap.getElem?_insert] at stored
  split at stored
  · next same =>
    obtain ⟨first, second⟩ := Prod.mk.inj (eq_of_beq same)
    obtain rfl := candidates.apart c d cMember dMember first
    obtain rfl := patterns.apart p q pMember qMember second
    exact (Option.some.inj stored).symm
  · exact agrees d q dMember qMember maps stored

theorem yields_matchPairs {I : Memo → Prop} {candidates patterns : List Branch}
    (each : ∀ c ∈ candidates, ∀ p ∈ patterns, Yields I (matchPair assigner c p) (plainMatch c p)) :
    Yields I (matchPairs assigner patterns candidates) (answers candidates patterns) := by
  induction candidates with
  | nil => exact yields_pure []
  | cons c rest ih =>
    rw [matchPairs]
    have behind := ih fun d member => each d (List.mem_cons_of_mem c member)
    exact yields_bind (yields_mapM (each c List.mem_cons_self)) (yields_bind behind (yields_pure _))

/-- An answer of the plain search may be put down. -/
theorem yields_store (candidates : Family C) (patterns : Family P) {c p : Branch} (cMember : C c) (pMember : P p)
    {maps : Maps} (same : maps = plainMatch c p) :
    Yields (Agrees C P) (do modify (·.insert (c.node.index, p.node.index) maps); return maps) (plainMatch c p) := by
  subst same
  exact fun memo agrees => ⟨rfl, insert_agrees candidates patterns agrees cMember pMember⟩

section Searches
variable (cheapest : assigner.Cheapest)
include cheapest

/-- Two branches have the answer of the plain search, remembered or worked out. -/
theorem yields_matchPair (candidates : Family C) (patterns : Family P) (c : Branch) :
    ∀ p, C c → P p → Yields (Agrees C P) (matchPair assigner c p) (plainMatch c p) := by
  induction c using Branch.induction with
  | mk n bs ih =>
    intro p cMember pMember memo agrees
    have store := fun maps (same : maps = plainMatch (.mk n bs) p) =>
      yields_store candidates patterns cMember pMember same
    have worked := shortcuts_eq cheapest (.mk n bs) p
    rw [matchPair]
    cases stored : memo[(n.index, p.node.index)]? with
    | some maps =>
      simp only [StateT.run_bind, StateT.run_get, pure_bind, stored]
      exact ⟨agrees _ _ cMember pMember maps stored, agrees⟩
    | none =>
      simp only [StateT.run_bind, StateT.run_get, pure_bind, stored]
      by_cases refused : (!mayMatch (.mk n bs) p) = true
      · rw [if_pos refused] at worked ⊢
        exact store _ worked memo agrees
      · rw [if_neg refused] at worked ⊢
        by_cases leaf : p.children.isEmpty = true
        · rw [if_pos leaf] at worked ⊢
          exact store _ worked memo agrees
        · rw [if_neg leaf] at worked ⊢
          have pairs := yields_matchPairs fun b member q listed =>
            ih b member q (candidates.below _ cMember b member) (patterns.below p pMember q listed)
          exact yields_bind pairs (store _ worked) memo agrees

/-- The matches among some branches, as the plain search answers. -/
def plainAmong (pattern : Branch) (candidates : List Branch) : List Match :=
  candidates.filterMap fun c => (plainMatch c pattern).map fun maps =>
    ⟨c.node, Correspondence.maximalUnique (maps.map (rooted c pattern))⟩

theorem yields_findAmong (candidates : Family C) (patterns : Family P) {pattern : Branch} (pMember : P pattern)
    {among : List Branch} (members : ∀ c ∈ among, C c) :
    Yields (Agrees C P) (findAmong assigner pattern among) (plainAmong pattern among) := by
  induction among with
  | nil => exact yields_pure []
  | cons c rest ih =>
    rw [findAmong]
    have first := yields_matchPair cheapest candidates patterns c pattern (members c List.mem_cons_self) pMember
    refine yields_bind first (yields_bind (ih fun d member => members d (List.mem_cons_of_mem c member)) ?_)
    cases answered : plainMatch c pattern with
    | none => simpa [plainAmong, answered] using yields_pure _
    | some maps => simpa [plainAmong, answered] using yields_pure _

end Searches

end PayloadSchema.Matching

namespace PayloadSchema.Matcher
open Arena Matching SchemaTree

variable {t u : SchemaTree} {p : Node} {assigner : Assigner}

/-- The branches of a built tree are told apart by position. -/
theorem branches_family (built : t.Built) : Family fun b => ∃ n ∈ t.nodes, t.branch n = b where
  below := by
    rintro b ⟨n, member, rfl⟩ c listed
    rw [built.branch_eq member] at listed
    obtain ⟨m, child, rfl⟩ := List.mem_map.mp listed
    exact ⟨m, built.shaped.child_member member child, rfl⟩
  apart := by
    rintro b c ⟨n, nMember, rfl⟩ ⟨m, mMember, rfl⟩ same
    rw [built.branch_eq nMember, built.branch_eq mMember] at same
    rw [built.shaped.eq_of_index nMember mMember same]

theorem candidate_known (builtT : t.Built) {pattern c : Branch} (listed : c ∈ candidates t pattern) :
    ∃ n ∈ t.nodes, t.branch n = c := by
  obtain ⟨n, known, rfl⟩ := List.mem_map.mp listed
  exact ⟨n, builtT.mem_preorder.mp (List.mem_filter.mp known).1, rfl⟩

/-- Whatever is remembered from before, a search finds what the plain search finds, up to leaving out maps. -/
theorem find_eq_plainAmong (cheapest : assigner.Cheapest) (builtT : t.Built) (builtU : u.Built) (member : p ∈ u.nodes)
    (m : Matcher) (same : m.tree = t) :
    (m.find assigner (u.branch p)).1 = plainAmong (u.branch p) (candidates t (u.branch p)) := by
  have found := yields_findAmong cheapest (branches_family builtT) (branches_family builtU) ⟨p, member, rfl⟩
    fun c (listed : c ∈ candidates t (u.branch p)) => candidate_known builtT listed
  rw [find, same]
  exact (found ∅ empty_agrees).1

end PayloadSchema.Matcher
