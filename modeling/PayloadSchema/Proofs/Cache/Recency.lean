import Mathlib.Data.List.Induction
import PayloadSchema.Proofs.Lists
import PayloadSchema.TreeCache

/-! What a cache holds after any calls, told by the calls alone: the trees of the keys that were successfully asked for
most recently, as many as there is room for. Calls that bring no tree leave it as it is. All of this is true of every
container that drops what was used least recently. -/
namespace PayloadSchema.Cache
open TreeCache Container

/-- What may be asked of a cache. -/
inductive Call where
  | get (key : Option (List Descriptor))
  | look (key : List Descriptor)
  | clear
deriving DecidableEq

/-- What a cache has to say to a call. -/
inductive Reply where
  | given (answer : Except Refusal Stored)
  | seen (there : Bool)
  | cleared

/-- The tree that a reply brings. -/
def Reply.tree? : Reply → Option Stored
  | given (.ok s) => some s
  | _ => none

variable {K : Container (List Descriptor) Stored} {entries : K.State → List (List Descriptor × Stored)}
  {limits : Limits} {c d : Cache K} {key : List Descriptor} {calls : List Call} {call : Call} {s : Stored}
  {t : SchemaTree} {refusal : Refusal} {answer : Except Refusal Stored} {m : Nat} {given : Amount}

/-- The reply to a call, and the cache afterwards. -/
def serve (c : Cache K) : Call → Reply × Cache K
  | .get key => (.given (c.request key).1, (c.request key).2)
  | .look key => (.seen (c.contains key), c)
  | .clear => (.cleared, c.clear)

theorem serve_get (c : Cache K) (key : List Descriptor) :
    c.serve (.get (some key)) = (.given (c.get key).1, (c.get key).2) := rfl

/-- The cache after some calls. -/
def run (c : Cache K) (calls : List Call) : Cache K := calls.foldl (fun c call => (c.serve call).2) c

theorem run_snoc (c : Cache K) (calls : List Call) (call : Call) :
    run c (calls ++ [call]) = ((run c calls).serve call).2 := by
  rw [run, List.foldl_append]
  rfl

/-- The key of a call that asks for a tree and brings one. -/
def Call.success? (limits : Limits) : Call → Option (List Descriptor)
  | get (some key) =>
    match SchemaTree.build limits key with
    | .ok (.built _) => some key
    | _ => none
  | _ => none

/-- The keys that were successfully asked for since the last clearing, the last one first. -/
def requested (limits : Limits) (calls : List Call) : List (List Descriptor) :=
  (calls.reverse.takeWhile (· ≠ .clear)).filterMap (·.success? limits)

/-- The same keys without repetitions: each one where it was asked for last. -/
def recent (limits : Limits) (calls : List Call) : List (List Descriptor) := (requested limits calls).eraseDups

/-! One call. -/

/-- Why there is no tree to be stored, if building comes to none. -/
def refusal? : Except Defect Outcome → Option Refusal
  | .ok (.built _) => none
  | .ok (.rejected problems) => some (.rejected problems)
  | .error e => some (.defect e)

theorem built_or_refused (answer : Except Defect Outcome) :
    (∃ t, answer = .ok (.built t)) ∨ ∃ refusal, refusal? answer = some refusal :=
  match answer with
  | .ok (.built t) => .inl ⟨t, rfl⟩
  | .ok (.rejected _) | .error _ => .inr ⟨_, rfl⟩

/-- What becomes of asking a cache for a tree: it was there, or no tree can be built, or the one that was built is
stored, or it has no place. -/
inductive Served (entries : K.State → List (List Descriptor × Stored)) (c : Cache K) (key : List Descriptor) :
    Except Refusal Stored → Cache K → Prop
  | held {s : Stored} {trees : K.State} (there : (key, s) ∈ entries c.trees)
      (kept : entries trees = front (entries c.trees) key s) (room : K.room trees = c.capacity) :
      Served entries c key (.ok s) { c with trees }
  | refused {refusal : Refusal} (away : c.contains key = false)
      (refused : refusal? (SchemaTree.build c.limits key) = some refusal) : Served entries c key (.error refusal) c
  | stored {t : SchemaTree} {trees : K.State} (away : c.contains key = false)
      (made : SchemaTree.build c.limits key = .ok (.built t)) (some : c.capacity ≠ 0)
      (kept : entries trees = (front (entries c.trees) key ⟨t, c.built⟩).take c.capacity)
      (room : K.room trees = c.capacity) :
      Served entries c key (.ok ⟨t, c.built⟩) { c with trees, built := c.built + 1 }
  | lost {t : SchemaTree} (away : c.contains key = false)
      (made : SchemaTree.build c.limits key = .ok (.built t)) (none : c.capacity = 0) :
      Served entries c key (.error .noRoom) { c with built := c.built + 1 }

section Lawful
variable (lru : K.Lru entries)
include lru

theorem contains_iff : c.contains key = true ↔ key ∈ (entries c.trees).map Prod.fst := lru.has c.trees key

theorem contains_of_mem (there : (key, s) ∈ entries c.trees) : c.contains key = true :=
  (contains_iff lru).mpr (List.mem_map_of_mem there)

theorem mem_of_contains (known : c.contains key = true) : ∃ s, (key, s) ∈ entries c.trees := by
  obtain ⟨⟨_, s⟩, there, rfl⟩ := List.mem_map.mp ((contains_iff lru).mp known)
  exact ⟨s, there⟩

theorem read_away (away : c.contains key = false) : K.read c.trees key = (none, c.trees) :=
  lru.miss c.trees fun listed => Bool.false_ne_true (away.symm.trans ((contains_iff lru).mpr listed))

theorem get_held (there : (key, s) ∈ entries c.trees) :
    ∃ trees, c.get key = (.ok s, { c with trees }) ∧ entries trees = front (entries c.trees) key s ∧
      K.room trees = c.capacity := by
  obtain ⟨trees, read, kept, room⟩ := lru.hit c.trees there
  exact ⟨trees, by simp only [get, read], kept, room⟩

theorem get_refused (away : c.contains key = false)
    (refused : refusal? (SchemaTree.build c.limits key) = some refusal) : c.get key = (.error refusal, c) := by
  revert refused
  rw [get, read_away lru away]
  dsimp only
  rcases SchemaTree.build c.limits key with _ | _ | _ <;> rintro ⟨⟩ <;> rfl

theorem get_stored (away : c.contains key = false) (made : SchemaTree.build c.limits key = .ok (.built t))
    (some : c.capacity ≠ 0) :
    ∃ trees, c.get key = (.ok ⟨t, c.built⟩, { c with trees, built := c.built + 1 }) ∧
      entries trees = (front (entries c.trees) key ⟨t, c.built⟩).take c.capacity ∧ K.room trees = c.capacity := by
  obtain ⟨trees, written, kept, room⟩ := lru.write c.trees key ⟨t, c.built⟩ some
  exact ⟨trees, by simp only [get, read_away lru away, made, written], kept, room⟩

theorem get_lost (away : c.contains key = false) (made : SchemaTree.build c.limits key = .ok (.built t))
    (none : c.capacity = 0) : c.get key = (.error .noRoom, { c with built := c.built + 1 }) := by
  simp only [get, read_away lru away, made, lru.full _ _ _ none]

theorem get_served (c : Cache K) (key : List Descriptor) : Served entries c key (c.get key).1 (c.get key).2 := by
  cases known : c.contains key with
  | true =>
    obtain ⟨s, there⟩ := mem_of_contains lru known
    obtain ⟨trees, answered, kept, room⟩ := get_held lru there
    rw [answered]
    exact .held there kept room
  | false =>
    rcases built_or_refused (SchemaTree.build c.limits key) with ⟨t, made⟩ | ⟨refusal, refused⟩
    · by_cases none : c.capacity = 0
      · rw [get_lost lru known made none]
        exact .lost known made none
      · obtain ⟨trees, answered, kept, room⟩ := get_stored lru known made none
        rw [answered]
        exact .stored known made none kept room
    · rw [get_refused lru known refused]
      exact .refused known refused

end Lawful

theorem served_kept (served : Served entries c key answer d) :
    d.capacity = c.capacity ∧ d.limits = c.limits ∧ c.built ≤ d.built := by
  cases served with
  | held _ _ room => exact ⟨room, rfl, Nat.le_refl _⟩
  | refused => exact ⟨rfl, rfl, Nat.le_refl _⟩
  | stored _ _ _ _ room => exact ⟨room, rfl, Nat.le_succ _⟩
  | lost => exact ⟨rfl, rfl, Nat.le_succ _⟩

/-- An entry that was not there before is that of the key that was asked for, with the tree that was built for it. -/
theorem entries_served (served : Served entries c key answer d) {e : List Descriptor × Stored}
    (listed : e ∈ entries d.trees) :
    e ∈ entries c.trees ∨ c.contains key = false ∧ answer = .ok e.2 ∧ e = (key, ⟨e.2.tree, c.built⟩) ∧
      d.built = c.built + 1 ∧ SchemaTree.build c.limits key = .ok (.built e.2.tree) := by
  cases served with
  | held there kept =>
    rw [kept] at listed
    rcases List.mem_cons.mp listed with rfl | old
    · exact .inl there
    · exact .inl (List.mem_of_mem_filter old)
  | refused => exact .inl listed
  | stored away made _ kept =>
    rw [kept] at listed
    rcases List.mem_cons.mp (List.mem_of_mem_take listed) with rfl | old
    · exact .inr ⟨away, rfl, rfl, rfl, made⟩
    · exact .inl (List.mem_of_mem_filter old)
  | lost => exact .inl listed

/-! The keys. -/

theorem requested_clear (limits : Limits) (calls : List Call) : requested limits (calls ++ [.clear]) = [] := by
  simp [requested]

theorem requested_snoc (limits : Limits) (calls : List Call) (other : call ≠ .clear) :
    requested limits (calls ++ [call]) = (call.success? limits).toList ++ requested limits calls := by
  rw [requested, List.reverse_append, List.reverse_singleton, List.singleton_append,
    List.takeWhile_cons_of_pos (by simpa using other), List.filterMap_cons, requested]
  cases call.success? limits <;> rfl

theorem success_of_made (made : SchemaTree.build limits key = .ok (.built t)) :
    (Call.get (some key)).success? limits = some key := by
  simp only [Call.success?, made]

theorem success_of_refused (refused : refusal? (SchemaTree.build limits key) = some refusal) :
    (Call.get (some key)).success? limits = none := by
  revert refused
  rw [Call.success?]
  rcases SchemaTree.build limits key with _ | _ | _ <;> rintro ⟨⟩ <;> rfl

theorem front_keys (listed : List (List Descriptor × Stored)) :
    (front listed key s).map Prod.fst = key :: (listed.map Prod.fst).filter fun k => !(k == key) := by
  rw [front, List.map_cons, List.filter_map]
  refine congrArg (key :: List.map Prod.fst ·) (List.filter_congr fun e _ => ?_)
  rw [Bool.eq_iff_iff]
  simp

/-- A key to the front of all keys is a key to the front of those that there is room for. -/
theorem front_recent (room : 1 ≤ m) (keys : List (List Descriptor)) :
    (key :: (keys.eraseDups.take m).filter fun k => !(k == key)).take m = (key :: keys).eraseDups.take m := by
  obtain ⟨count, rfl⟩ := Nat.exists_eq_add_of_le' room
  rw [List.eraseDups_cons, ← filter_eraseDups, List.take_succ_cons, List.take_succ_cons,
    take_filter_ne (eraseDups_nodup keys)]

/-- The state of a cache, told by the calls that led to it. -/
structure Holds (entries : K.State → List (List Descriptor × Stored)) (limits : Limits) (m : Nat) (calls : List Call)
    (c : Cache K) : Prop where
  capacity : c.capacity = m
  config : c.limits = limits
  /-- The keys that were asked for most recently, the last one first. -/
  keys : (entries c.trees).map Prod.fst = (recent limits calls).take m
  trees : ∀ e ∈ entries c.trees, SchemaTree.build limits e.1 = .ok (.built e.2.tree)

/-- Descriptors of which no tree can be built are never there. -/
theorem Holds.away (lru : K.Lru entries) (held : Holds entries limits m calls c)
    (refused : refusal? (SchemaTree.build limits key) = some refusal) : c.contains key = false := by
  refine Bool.eq_false_iff.mpr fun known => ?_
  obtain ⟨s, there⟩ := mem_of_contains lru known
  rw [held.trees _ there] at refused
  cases refused

theorem keys_served (held : Holds entries limits m calls c) (served : Served entries c key answer d) :
    (entries d.trees).map Prod.fst = (recent limits (calls ++ [.get (some key)])).take m := by
  rw [recent, requested_snoc limits calls (by simp)]
  cases served with
  | @held s _ there kept _ =>
    have known : key ∈ (entries c.trees).map Prod.fst := List.mem_map_of_mem there
    have few : ((entries c.trees).map Prod.fst).length ≤ m := held.keys ▸ List.length_take_le m _
    have room : 1 ≤ m := Nat.le_trans (List.length_pos_of_mem known) few
    -- The key leaves its old place for the front, so that nothing has to make room.
    have fits : (key :: ((entries c.trees).map Prod.fst).filter fun k => !(k == key)).length ≤ m := by
      have fewer : (((entries c.trees).map Prod.fst).filter fun k => !(k == key)).length <
          ((entries c.trees).map Prod.fst).length :=
        List.length_filter_lt_length_iff_exists.mpr ⟨key, known, by simp⟩
      rw [List.length_cons]
      omega
    rw [success_of_made (held.trees _ there), Option.toList_some, List.singleton_append, ← front_recent room, ← recent,
      ← held.keys, List.take_of_length_le fits, kept, front_keys]
  | refused _ refused =>
    rw [held.config] at refused
    rw [success_of_refused refused, Option.toList_none, List.nil_append, held.keys, recent]
  | stored _ made some kept _ =>
    rw [held.config] at made
    rw [held.capacity] at some
    rw [success_of_made made, Option.toList_some, List.singleton_append, ← front_recent (Nat.pos_of_ne_zero some),
      ← recent, ← held.keys, kept, List.map_take, front_keys, held.capacity]
  | lost _ _ none =>
    rw [held.capacity] at none
    rw [held.keys, none, List.take_zero, List.take_zero]

section Runs
variable (lru : K.Lru entries)
include lru

/-- There is an empty cache with any room that is not negative. -/
theorem exists_of (enough : given.isBelow 0 = false) (limits : Limits) :
    ∃ start, Cache.of K given limits = some start := by
  obtain ⟨trees, fresh, _⟩ := lru.fresh enough
  exact ⟨_, by rw [Cache.of, fresh]; rfl⟩

theorem of_eq_some (made : Cache.of K given limits = some c) :
    c.limits = limits ∧ entries c.trees = [] ∧ c.capacity = given.most := by
  obtain ⟨trees, fresh, rfl⟩ := Option.map_eq_some_iff.mp made
  cases below : given.isBelow 0 with
  | true => cases (lru.negative below).symm.trans fresh
  | false =>
    obtain ⟨s, found, empty, room⟩ := lru.fresh below
    obtain rfl := Option.some.inj (found.symm.trans fresh)
    exact ⟨rfl, empty, room⟩

theorem holds_fresh (made : Cache.of K given limits = some c) : Holds entries limits given.most [] c := by
  obtain ⟨config, empty, capacity⟩ := of_eq_some lru made
  exact ⟨capacity, config, by simp [empty, recent, requested], by simp [empty]⟩

/-- One call more leaves the cache with what was asked for most recently. -/
theorem Holds.serve (held : Holds entries limits m calls c) (call : Call) :
    Holds entries limits m (calls ++ [call]) (c.serve call).2 := by
  have unchanged : call ≠ .clear → call.success? limits = none → Holds entries limits m (calls ++ [call]) c :=
    fun other none =>
      { held with
        keys := by rw [held.keys, recent, recent, requested_snoc limits calls other, none, Option.toList_none,
          List.nil_append] }
  cases call with
  | get asked =>
    cases asked with
    | none => exact unchanged (by simp) rfl
    | some key =>
      have served := get_served lru c key
      obtain ⟨capacity, config, _⟩ := served_kept served
      refine ⟨capacity.trans held.capacity, config.trans held.config, keys_served held served, fun e listed => ?_⟩
      rcases entries_served served listed with old | ⟨_, _, new, _, made⟩
      · exact held.trees e old
      · rw [held.config] at made
        rw [new]
        exact made
  | look key => exact unchanged (by simp) rfl
  | clear =>
    obtain ⟨empty, same⟩ := lru.clear c.trees
    refine ⟨same.trans held.capacity, held.config, ?_, fun e listed => ?_⟩
    · rw [recent, requested_clear]
      simpa [Cache.serve, Cache.clear] using empty
    · simp [Cache.serve, Cache.clear, empty] at listed

theorem run_holds (made : Cache.of K given limits = some c) (calls : List Call) :
    Holds entries limits given.most calls (run c calls) := by
  induction calls using List.reverseRecOn with
  | nil => exact holds_fresh lru made
  | append_singleton calls call ih =>
    rw [run_snoc]
    exact ih.serve lru call

/-! The answers. -/

theorem Holds.get_built (held : Holds entries limits m calls c) (room : m ≠ 0)
    (made : SchemaTree.build limits key = .ok (.built t)) : ∃ s, (c.get key).1 = .ok s ∧ s.tree = t := by
  cases known : c.contains key with
  | true =>
    obtain ⟨s, there⟩ := mem_of_contains lru known
    obtain ⟨_, answered, _⟩ := get_held lru there
    have same : Outcome.built t = .built s.tree := Except.ok.inj (made.symm.trans (held.trees _ there))
    exact ⟨s, congrArg Prod.fst answered, (Outcome.built.inj same).symm⟩
  | false =>
    rw [← held.config] at made
    obtain ⟨_, answered, _⟩ := get_stored lru known made (held.capacity ▸ room)
    exact ⟨_, congrArg Prod.fst answered, rfl⟩

theorem Holds.get_refused (held : Holds entries limits m calls c)
    (refused : refusal? (SchemaTree.build limits key) = some refusal) : c.get key = (.error refusal, c) := by
  have away := held.away lru refused
  rw [← held.config] at refused
  exact Cache.get_refused lru away refused

end Runs

end PayloadSchema.Cache
