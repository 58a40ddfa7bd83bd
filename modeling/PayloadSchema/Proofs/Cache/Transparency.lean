import PayloadSchema.Proofs.Cache.History
import PayloadSchema.Proofs.Tree.Course

/-! What a cache answers, whatever it was asked before. With room for one tree at least the answer is what building the
tree comes to. Without room there is no answer for descriptors that make a tree. -/
namespace PayloadSchema.Cache
open TreeCache Container

variable {K : Container (List Descriptor) Stored} {entries : K.State → List (List Descriptor × Stored)}
  {limits : Limits} {c start : Cache K} {key : List Descriptor} {calls : List Call} {t : SchemaTree}

/-- An answer is what building a tree comes to. -/
def Agrees : Except Defect Outcome → Except Refusal Stored → Prop
  | .ok (.built t), answer => ∃ s, answer = .ok s ∧ s.tree = t
  | .ok (.rejected problems), answer => answer = .error (.rejected problems)
  | .error e, answer => answer = .error (.defect e)

/-- What is left to answer when there is no room for the tree. -/
def withoutRoom : Except Defect Outcome → Except Refusal Stored
  | .ok (.built _) => .error .noRoom
  | .ok (.rejected problems) => .error (.rejected problems)
  | .error e => .error (.defect e)

theorem agrees_refused {answer : Except Defect Outcome} {refusal : Refusal} (refused : refusal? answer = some refusal) :
    Agrees answer (.error refusal) ∧ withoutRoom answer = .error refusal := by
  rcases answer with _ | _ | _ <;> cases refused <;> exact ⟨rfl, rfl⟩

theorem Holds.get_without_room (lru : K.Lru entries) (held : Holds entries limits 0 calls c)
    (made : SchemaTree.build limits key = .ok (.built t)) : (c.get key).1 = .error .noRoom := by
  have away : c.contains key = false := by
    refine Bool.eq_false_iff.mpr fun known => ?_
    have listed := (contains_iff lru).mp known
    rw [held.keys, List.take_zero] at listed
    cases listed
  rw [← held.config] at made
  exact congrArg Prod.fst (get_lost lru away made held.capacity)

/-- A cache answers with what building the tree comes to, unless it has no room for a tree. Then the trees that can be
built are refused. Building comes to an outcome unless what would have to be told of it cannot be written. -/
theorem get_answers {K : Container (List Descriptor) Stored} {entries : K.State → List (List Descriptor × Stored)}
    (lru : K.Lru entries) {given : Amount} {limits : Limits} {start : Cache K}
    (made : Cache.of K given limits = some start) (calls : List Call) (key : List Descriptor) :
    (∃ o, SchemaTree.examine limits key = .ok o ∧ SchemaTree.Told limits o (SchemaTree.build limits key)) ∧
      (given.most ≠ 0 →
        Agrees (SchemaTree.build limits key) ((run start calls).request (some key)).1) ∧
      (given.most = 0 →
        ((run start calls).request (some key)).1 = withoutRoom (SchemaTree.build limits key)) := by
  have held := run_holds lru made calls
  obtain ⟨o, examined, _⟩ := SchemaTree.examine_course limits key
  refine ⟨⟨o, examined, SchemaTree.build_told examined⟩, ?_⟩
  rcases built_or_refused (SchemaTree.build limits key) with ⟨t, ran⟩ | ⟨refusal, refused⟩
  · refine ⟨fun room => ran ▸ held.get_built lru room ran, fun none => ?_⟩
    rw [none] at held
    rw [ran]
    exact held.get_without_room lru ran
  · have answered : ((run start calls).request (some key)).1 = .error refusal :=
      congrArg Prod.fst (held.get_refused lru refused)
    obtain ⟨agrees, without⟩ := agrees_refused refused
    exact ⟨fun _ => answered ▸ agrees, fun _ => answered.trans without.symm⟩

/-- The hall's lamp had to make room for the porch's lamp. -/
theorem hall_answered : (Shelf.container (List Descriptor) Stored).Lru Shelf.entries ∧
    ∃ start t, TreeCache.of (.whole 2) {} = some start ∧ SchemaTree.build {} (lamp "hall") = .ok (.built t) ∧
      ∃ s, ((run start lampCalls).request (some (lamp "hall"))).1 = .ok s ∧ s.tree = t := by
  have built : ∃ t, SchemaTree.build {} (lamp "hall") = .ok (.built t) := SchemaTree.built_of_tree (by decide +kernel)
  obtain ⟨t, ran⟩ := built
  obtain ⟨_, agrees, _⟩ := get_answers Shelf.container_lru
    (rfl : TreeCache.of (.whole 2) {} = some _) lampCalls (lamp "hall")
  have answered := agrees (by decide)
  rw [ran] at answered
  exact ⟨Shelf.container_lru, _, t, rfl, ran, answered⟩

/-- A cache can be made that has no room for the first tree it is asked for. -/
theorem desk_refused : ∃ start t, TreeCache.of (.whole 0) {} = some start ∧
    SchemaTree.build {} (lamp "desk") = .ok (.built t) ∧
      (start.request (some (lamp "desk"))).1 = .error .noRoom := by
  have made : ∃ t, SchemaTree.build {} (lamp "desk") = .ok (.built t) := SchemaTree.built_of_tree (by decide +kernel)
  obtain ⟨t, ran⟩ := made
  exact ⟨_, t, rfl, ran, congrArg Prod.fst (get_lost Shelf.container_lru rfl ran rfl)⟩

end PayloadSchema.Cache
