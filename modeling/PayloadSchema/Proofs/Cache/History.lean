import Mathlib.Logic.Function.Basic
import PayloadSchema.Proofs.Cache.Recency

/-! Where the trees in a cache come from: each is the one that was returned when its key was last built, and a tree
that is built is none of those returned before. With the keys that a cache holds this tells every reply. The caches of
a family answer as they would alone. -/
namespace PayloadSchema.Cache
open TreeCache Container

variable {K : Container (List Descriptor) Stored} {entries : K.State → List (List Descriptor × Stored)}
  {limits : Limits} {c d start : Cache K} {key : List Descriptor} {calls : List Call} {call : Call} {s : Stored}
  {t : SchemaTree} {answer : Except Refusal Stored} {m : Nat}

/-- The reply to a call that comes after others. -/
def replyAfter (start : Cache K) (calls : List Call) (call : Call) : Reply := ((run start calls).serve call).1

/-- One of the calls returned a tree. -/
def Returned (start : Cache K) (calls : List Call) (s : Stored) : Prop :=
  ∃ before call after, calls = before ++ call :: after ∧ (replyAfter start before call).tree? = some s

/-- A tree was returned when its key was asked for and not there, and whenever the key was asked for since then it was
there. -/
def LastBuilt (start : Cache K) (calls : List Call) (key : List Descriptor) (s : Stored) : Prop :=
  ∃ before after, calls = before ++ .get (some key) :: after ∧ (run start before).contains key = false ∧
    replyAfter start before (.get (some key)) = .given (.ok s) ∧
    ∀ mid rest, after = mid ++ .get (some key) :: rest →
      (run start (before ++ .get (some key) :: mid)).contains key = true

/-- An element that was appended to a list is the one that the list is split at, or behind it. -/
theorem split_snoc {α : Type} {xs ys zs : List α} {x y : α} (split : xs ++ [x] = ys ++ y :: zs) :
    zs = [] ∧ xs = ys ∧ x = y ∨ ∃ more, zs = more ++ [x] ∧ xs = ys ++ y :: more := by
  rcases List.eq_nil_or_concat zs with rfl | ⟨more, z, rfl⟩
  · obtain ⟨same, last⟩ := List.append_inj' split rfl
    exact .inl ⟨rfl, same, List.singleton_inj.mp last⟩
  · have moved : xs ++ [x] = (ys ++ y :: more) ++ [z] := by simpa using split
    obtain ⟨same, last⟩ := List.append_inj' moved rfl
    obtain rfl := List.singleton_inj.mp last
    exact .inr ⟨more, List.concat_eq_append, same⟩

theorem returned_snoc (returned : Returned start (calls ++ [call]) s) :
    Returned start calls s ∨ (replyAfter start calls call).tree? = some s := by
  obtain ⟨before, asked, after, split, brought⟩ := returned
  rcases split_snoc split with ⟨_, rfl, rfl⟩ | ⟨more, _, known⟩
  · exact .inr brought
  · exact .inl ⟨before, asked, more, known, brought⟩

theorem LastBuilt.later (last : LastBuilt start calls key s) (still : (run start calls).contains key = true)
    (call : Call) : LastBuilt start (calls ++ [call]) key s := by
  obtain ⟨before, after, rfl, away, returned, since⟩ := last
  refine ⟨before, after ++ [call], by simp, away, returned, fun mid rest split => ?_⟩
  rcases split_snoc split with ⟨_, rfl, rfl⟩ | ⟨more, _, known⟩
  · exact still
  · exact since mid more known

/-! One call. -/

section Lawful
variable (lru : K.Lru entries)
include lru

theorem built_le (c : Cache K) (call : Call) : c.built ≤ (c.serve call).2.built := by
  cases call with
  | get asked =>
    cases asked with
    | none => exact Nat.le_refl _
    | some key => exact (served_kept (get_served lru c key)).2.2
  | look key => exact Nat.le_refl _
  | clear => exact Nat.le_refl _

/-- An entry that was not there before is that of the key that was asked for. -/
theorem entries_serve {e : List Descriptor × Stored} (listed : e ∈ entries (c.serve call).2.trees) :
    e ∈ entries c.trees ∨ call = .get (some e.1) ∧ c.contains e.1 = false ∧ (c.serve call).1 = .given (.ok e.2) ∧
      e.2.serial = c.built ∧ (c.serve call).2.built = c.built + 1 := by
  cases call with
  | get asked =>
    cases asked with
    | none => exact .inl listed
    | some key =>
      rcases entries_served (get_served lru c key) listed with old | ⟨away, answered, new, counted, _⟩
      · exact .inl old
      · obtain rfl : e.1 = key := congrArg Prod.fst new
        exact .inr ⟨rfl, away, congrArg Reply.given answered, congrArg (·.2.serial) new, counted⟩
  | look key => exact .inl listed
  | clear =>
    rw [serve, clear, (lru.clear c.trees).1] at listed
    cases listed

theorem serial_lt (stored : ∀ e ∈ entries c.trees, e.2.serial < c.built)
    (returned : (c.serve call).1.tree? = some s) : s.serial < (c.serve call).2.built := by
  cases call with
  | get asked =>
    cases asked with
    | none => cases returned
    | some key =>
      have served := get_served lru c key
      revert served returned
      rw [serve_get]
      generalize (c.get key).1 = answer, (c.get key).2 = d
      intro returned served
      cases served with
      | held there =>
        cases returned
        exact stored _ there
      | refused => cases returned
      | stored =>
        cases returned
        exact Nat.lt_succ_self _
      | lost => cases returned
  | look key => cases returned
  | clear => cases returned

end Lawful

/-- The trees of a cache, told by the calls that led to it. -/
structure Traced (entries : K.State → List (List Descriptor × Stored)) (start : Cache K) (calls : List Call) :
    Prop where
  last : ∀ e ∈ entries (run start calls).trees, LastBuilt start calls e.1 e.2
  stored : ∀ e ∈ entries (run start calls).trees, e.2.serial < (run start calls).built
  returned : ∀ s, Returned start calls s → s.serial < (run start calls).built

theorem Traced.serve (lru : K.Lru entries) (traced : Traced entries start calls) (call : Call) :
    Traced entries start (calls ++ [call]) := by
  have more := built_le lru (run start calls) call
  constructor
  · intro e listed
    rw [run_snoc] at listed
    rcases entries_serve lru listed with old | ⟨rfl, away, returned, _, _⟩
    · exact (traced.last e old).later (contains_of_mem lru old) call
    · exact ⟨calls, [], rfl, away, returned, fun mid rest split => by simp at split⟩
  · intro e listed
    rw [run_snoc] at listed ⊢
    rcases entries_serve lru listed with old | ⟨_, _, _, serial, counted⟩
    · exact Nat.lt_of_lt_of_le (traced.stored e old) more
    · omega
  · intro s returned
    rw [run_snoc]
    rcases returned_snoc returned with earlier | now
    · exact Nat.lt_of_lt_of_le (traced.returned s earlier) more
    · exact serial_lt lru traced.stored now

theorem run_traced (lru : K.Lru entries) (empty : entries start.trees = []) (calls : List Call) :
    Traced entries start calls := by
  induction calls using List.reverseRecOn with
  | nil => exact ⟨by simp [run, empty], by simp [run, empty], fun s ⟨_, _, _, split, _⟩ => by simp at split⟩
  | append_singleton calls call ih => exact ih.serve lru call

/-! Families. -/

section Families
variable {ι : Type} [DecidableEq ι]

/-- The reply of one cache of a family to a call, and the family afterwards. -/
def serveAt (caches : ι → Cache K) (call : ι × Call) : Reply × (ι → Cache K) :=
  (((caches call.1).serve call.2).1, Function.update caches call.1 ((caches call.1).serve call.2).2)

/-- A family of caches after some calls. -/
def runAll (caches : ι → Cache K) (calls : List (ι × Call)) : ι → Cache K :=
  calls.foldl (fun caches call => (serveAt caches call).2) caches

/-- The calls to one cache of a family. -/
def callsTo (i : ι) (calls : List (ι × Call)) : List Call := (calls.filter (·.1 = i)).map Prod.snd

/-- Each cache of a family is as it would be if it were alone. -/
theorem runAll_apply (caches : ι → Cache K) (calls : List (ι × Call)) (i : ι) :
    runAll caches calls i = run (caches i) (callsTo i calls) := by
  induction calls generalizing caches with
  | nil => rfl
  | cons call rest ih =>
    rw [runAll, List.foldl_cons, ← runAll, ih]
    by_cases mine : call.1 = i
    · subst mine
      have first : callsTo call.1 (call :: rest) = call.2 :: callsTo call.1 rest := by simp [callsTo]
      have served : (serveAt caches call).2 call.1 = ((caches call.1).serve call.2).2 := Function.update_self ..
      rw [first, served]
      rfl
    · have passed : callsTo i (call :: rest) = callsTo i rest := by simp [callsTo, mine]
      have untouched : (serveAt caches call).2 i = caches i := Function.update_of_ne (Ne.symm mine) ..
      rw [passed, untouched]

end Families

/-! Caches with room. -/

/-- What a cache with room for so many trees holds and says after some calls. -/
structure KeepsRecent (entries : K.State → List (List Descriptor × Stored)) (limits : Limits) (m : Nat)
    (start : Cache K) (calls : List Call) : Prop where
  /-- The keys in the order of their use, the last one first. The last of them is the next to be dropped. -/
  keys : (entries (run start calls).trees).map Prod.fst = (recent limits calls).take m
  /-- The keys that are counted as successfully asked for are those of the calls that bring a tree. -/
  success : ∀ call, (call.success? limits).isSome = (replyAfter start calls call).tree?.isSome
  contains : ∀ key, (run start calls).contains key = true ↔ key ∈ (recent limits calls).take m
  size : (run start calls).size = min m (recent limits calls).length ∧ (run start calls).size ≤ m
  trees : ∀ e ∈ entries (run start calls).trees,
    LastBuilt start calls e.1 e.2 ∧ SchemaTree.build limits e.1 = .ok (.built e.2.tree)
  hit : ∀ e ∈ entries (run start calls).trees, ((run start calls).request (some e.1)).1 = .ok e.2
  /-- A tree that is not there is built and stored. It is none of those that were returned before. -/
  miss : ∀ key t, (run start calls).contains key = false → SchemaTree.build limits key = .ok (.built t) →
    ∃ s c, (run start calls).request (some key) = (.ok s, c) ∧ s.tree = t ∧ (key, s) ∈ entries c.trees ∧
      ∀ other, Returned start calls other → other.serial ≠ s.serial
  rejected : ∀ key problems, SchemaTree.build limits key = .ok (.rejected problems) →
    (run start calls).request (some key) = (.error (.rejected problems), run start calls)
  /-- So is one that building breaks off for. -/
  failed : ∀ key e, SchemaTree.build limits key = .error e →
    (run start calls).request (some key) = (.error (.defect e), run start calls)
  absent : (run start calls).request none = (.error (.absent .descriptors), run start calls)
  looked : ∀ key, ((run start calls).serve (.look key)).2 = run start calls

theorem run_keeps (lru : K.Lru entries) (room : 1 ≤ m) (made : Cache.of K (.whole m) limits = some start)
    (calls : List Call) : KeepsRecent entries limits m start calls := by
  have held : Holds entries limits m calls (run start calls) := run_holds lru made calls
  have traced : Traced entries start calls := run_traced lru (of_eq_some lru made).2.1 calls
  constructor
  case keys => exact held.keys
  case success =>
    intro call
    rcases call with (_ | key) | _ | _
    · rfl
    · rcases built_or_refused (SchemaTree.build limits key) with ⟨t, made⟩ | ⟨refusal, refused⟩
      · obtain ⟨s, answered, _⟩ := held.get_built lru (by omega) made
        rw [success_of_made made, replyAfter, serve_get, answered]
        rfl
      · rw [success_of_refused refused, replyAfter, serve_get, held.get_refused lru refused]
        rfl
    · rfl
    · rfl
  case contains =>
    intro key
    rw [contains_iff lru, held.keys]
  case size =>
    have size : (run start calls).size = min m (recent limits calls).length := by
      rw [Cache.size, lru.size, ← List.length_map Prod.fst, held.keys, List.length_take]
    exact ⟨size, size ▸ Nat.min_le_left m _⟩
  case trees => exact fun e there => ⟨traced.last e there, held.trees e there⟩
  case hit =>
    intro e there
    obtain ⟨trees, answered, _⟩ := get_held lru there
    exact congrArg Prod.fst answered
  case miss =>
    intro key t away made
    have some : (run start calls).capacity ≠ 0 := by
      rw [held.capacity]
      omega
    rw [← held.config] at made
    obtain ⟨trees, answered, kept, _⟩ := get_stored lru away made some
    refine ⟨_, _, answered, rfl, ?_, fun other returned => Nat.ne_of_lt (traced.returned other returned)⟩
    obtain ⟨count, more⟩ := Nat.exists_eq_succ_of_ne_zero some
    rw [kept, more]
    exact List.mem_cons_self
  case rejected =>
    intro key problems found
    exact held.get_refused lru (by rw [found]; rfl)
  case failed =>
    intro key e failed
    exact held.get_refused lru (by rw [failed]; rfl)
  case absent => rfl
  case looked => exact fun _ => rfl

/-- A cache with room for some trees, kept in a container that drops what was used least recently, holds the trees of
the keys that were successfully asked for most recently. Caches of a family answer as they would alone. -/
theorem keeps_recent {K : Container (List Descriptor) Stored} {entries : K.State → List (List Descriptor × Stored)}
    (lru : K.Lru entries) {m : Nat} (room : 1 ≤ m) (limits : Limits) :
    ∃ start, Cache.of K (.whole m) limits = some start ∧ (∀ calls, KeepsRecent entries limits m start calls) ∧
      ∀ (ι : Type) [DecidableEq ι] (caches : ι → Cache K) (calls : List (ι × Call)) (i : ι),
        runAll caches calls i = run (caches i) (callsTo i calls) ∧
          ∀ call, (serveAt (runAll caches calls) (i, call)).1 = replyAfter (caches i) (callsTo i calls) call := by
  have enough : (Amount.whole m).isBelow 0 = false := by simp [Amount.isBelow_whole]
  obtain ⟨start, made⟩ := exists_of lru enough limits
  refine ⟨start, made, run_keeps lru room made, fun ι _ caches calls i => ?_⟩
  have alone := runAll_apply caches calls i
  exact ⟨alone, fun call => by rw [serveAt, replyAfter, alone]⟩

/-- A lamp that is on or off. -/
def lamp (name : Text) : List Descriptor :=
  [{ name := name, type := "object", children := some ["on"] }, { name := "on", type := "boolean", parent := name }]

/-- The desk's lamp is asked for again before the porch's lamp comes, what stands between brings no tree. -/
def lampCalls : List Call :=
  [.get (some (lamp "desk")), .get (some (lamp "hall")), .get (some (lamp "desk")), .look (lamp "hall"),
    .get (some [{ name := "hall", type := "object" }]), .get none, .get (some (lamp "porch"))]

theorem lamps_kept : (Shelf.container (List Descriptor) Stored).Lru Shelf.entries ∧ 1 ≤ 2 ∧
    ∃ start, TreeCache.of (.whole 2) {} = some start ∧ KeepsRecent Shelf.entries {} 2 start lampCalls ∧
      (run start lampCalls).trees.entries.map Prod.fst = [lamp "porch", lamp "desk"] := by
  obtain ⟨start, made, kept, _⟩ := keeps_recent Shelf.container_lru (by decide : 1 ≤ 2) {}
  exact ⟨Shelf.container_lru, by decide, start, made, kept lampCalls, (kept lampCalls).keys.trans (by decide +kernel)⟩

end PayloadSchema.Cache
