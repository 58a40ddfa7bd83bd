import PayloadSchema.Proofs.Number.Numerals
import PayloadSchema.Tree.Build

/-! Writing problems down. The numbers in the messages of problems are the limits as they were given, and no others. So
all that building finds can be written if the limits can, and what cannot be written is blamed on a problem that was
found. -/
namespace PayloadSchema
open Descriptor

variable {limits : Limits} {ds : List Descriptor} {o : Outcome}

namespace Problem

/-- Whether the number in a problem's message, if there is one, is a limit as it was given. -/
def Quotes (limits : Limits) : Problem → Prop
  | arraySize _ least => least = limits.givenSize
  | tooDeep most => most = limits.givenDepth
  | _ => True

theorem quotes_writable {p : Problem} (quotes : p.Quotes limits) (short : limits.isWritable) : p.isWritable := by
  obtain ⟨depth, size⟩ := Bool.and_eq_true_iff.mp short
  cases p with
  | arraySize _ _ => exact (congrArg Amount.isWritable quotes).trans size
  | tooDeep _ => exact (congrArg Amount.isWritable quotes).trans depth
  | _ => rfl

theorem forall_mem_reportIf {condition : Bool} {p : Problem} {P : Problem → Prop} :
    (∀ q ∈ reportIf condition p, P q) ↔ (condition = true → P p) := by
  cases condition <;> simp [reportIf]

end Problem

open Problem in
theorem identityProblems_quote (d : Descriptor) : ∀ p ∈ d.identityProblems, p.Quotes limits := by
  simp only [identityProblems, List.forall_mem_append, forall_mem_reportIf, Quotes, implies_true, true_and]
  split
  · exact List.forall_mem_singleton.mpr trivial
  · exact forall_mem_reportIf.mpr fun _ => trivial

open Problem in
theorem shapeProblems_quote (kind : NodeType) (d : Descriptor) :
    ∀ p ∈ shapeProblems limits kind d, p.Quotes limits := by
  unfold shapeProblems
  dsimp only
  split
  · exact List.forall_mem_singleton.mpr trivial
  · simp only [List.forall_mem_append, forall_mem_reportIf, Quotes, implies_true, and_self]

theorem inspect_quotes (d : Descriptor) : ∀ p ∈ (inspect limits d).2, p.Quotes limits := by
  unfold inspect
  split
  · split
    · exact shapeProblems_quote _ _
    · exact identityProblems_quote d
  · exact identityProblems_quote d

theorem repeatedNames_quote (seen : List Text) (names : List (Text × Text)) :
    ∀ p ∈ repeatedNames seen names, p.Quotes limits := by
  induction names generalizing seen with
  | nil => exact List.forall_mem_nil _
  | cons entry rest ih =>
    exact List.forall_mem_append.mpr ⟨Problem.forall_mem_reportIf.mpr fun _ => trivial, ih _⟩

theorem collectionProblems_quote (ds : List Descriptor) : ∀ p ∈ collectionProblems ds, p.Quotes limits := by
  refine List.forall_mem_append.mpr ⟨repeatedNames_quote _ _, ?_⟩
  split
  · exact Problem.forall_mem_reportIf.mpr fun _ => trivial
  · exact List.forall_mem_singleton.mpr trivial

theorem validate_quotes (ds : List Descriptor) : ∀ p ∈ (validate limits ds).2, p.Quotes limits := by
  unfold validate
  dsimp only
  split
  · exact collectionProblems_quote _
  · intro p listed
    obtain ⟨_, look, found⟩ := List.mem_flatMap.mp listed
    obtain ⟨d, _, rfl⟩ := List.mem_map.mp look
    exact inspect_quotes d p found

open Problem in
theorem problemsOf_quote (position : Position) (d : Descriptor) (links : Links) :
    ∀ p ∈ Linking.problemsOf position d links, p.Quotes limits := by
  simp only [Linking.problemsOf, List.forall_mem_append, forall_mem_reportIf, Quotes, implies_true, and_self]

theorem linking_quotes (ds : List Descriptor) : ∀ p ∈ Linking.problems ds, p.Quotes limits := by
  intro p listed
  obtain ⟨entry, _, found⟩ := List.mem_flatMap.mp listed
  exact problemsOf_quote _ _ _ p found

namespace SchemaTree

open Problem in
theorem walkProblems_quote (size : Nat) (w : Walk) : ∀ p ∈ walkProblems size w, p.Quotes limits := by
  simp only [walkProblems, List.forall_mem_append, forall_mem_reportIf, Quotes, implies_true, and_self]

theorem depthProblems_quote (nodes : List Node) : ∀ p ∈ depthProblems limits nodes, p.Quotes limits :=
  Problem.forall_mem_reportIf.mpr fun _ => rfl

theorem exists_of_bind {ε α β : Type} {x : Except ε α} {f : α → Except ε β} {b : β} (ran : (x >>= f) = .ok b) :
    ∃ a, x = .ok a ∧ f a = .ok b := by
  cases x with
  | error _ => cases ran
  | ok a => exact ⟨a, rfl, ran⟩

theorem grow_quotes {normal : List Descriptor} {nodes : List Node} (ran : grow limits normal nodes = .ok o) :
    ∀ p ∈ o.problems, p.Quotes limits := by
  unfold grow at ran
  split at ran
  · cases ran
  · obtain ⟨⟨order, w⟩, _, ran⟩ := exists_of_bind ran
    obtain ⟨places, _, ran⟩ := exists_of_bind ran
    split at ran
    · next p rest walked =>
      obtain rfl := Except.ok.inj ran
      exact fun q listed => walkProblems_quote nodes.length w q (walked ▸ listed)
    · obtain ⟨placed, _, ran⟩ := exists_of_bind ran
      split at ran
      · next p rest measured =>
        obtain rfl := Except.ok.inj ran
        exact fun q listed => depthProblems_quote placed q (measured ▸ listed)
      · obtain ⟨t, _, ran⟩ := exists_of_bind ran
        obtain rfl := Except.ok.inj ran
        exact List.forall_mem_nil _

/-- No number stands in the problems that are found but the limits as they were given. -/
theorem examine_quotes (ran : examine limits ds = .ok o) : ∀ p ∈ o.problems, p.Quotes limits := by
  unfold examine at ran
  split at ran
  · next p rest looked =>
    obtain rfl := Except.ok.inj ran
    exact fun q listed => validate_quotes ds q (by rwa [looked])
  · next normal looked =>
    split at ran
    · next p rest links =>
      obtain rfl := Except.ok.inj ran
      exact fun q listed => linking_quotes normal q (links ▸ listed)
    · obtain ⟨nodes, _, ran⟩ := exists_of_bind ran
      exact grow_quotes ran

/-- What building answers when it comes to an outcome. -/
structure Told (limits : Limits) (o : Outcome) (answer : Except Defect Outcome) : Prop where
  whole : (∀ p ∈ o.problems, p.isWritable) → answer = .ok o
  short : limits.isWritable → answer = .ok o
  /-- Nothing is told where a limit that would have to be has too many digits. -/
  long : ∀ p ∈ o.problems, p.isWritable = false →
    ∃ q ∈ o.problems, q.Quotes limits ∧ q.isWritable = false ∧ answer = .error (.unwritable q)

theorem build_told (ran : examine limits ds = .ok o) : Told limits o (build limits ds) := by
  have whole (writable : ∀ p ∈ o.problems, p.isWritable) : build limits ds = .ok o :=
    (build_of_examined ran).trans (Outcome.written_of_writable writable)
  refine ⟨whole, fun short => whole fun p listed => Problem.quotes_writable (examine_quotes ran p listed) short, ?_⟩
  intro p listed long
  obtain ⟨q, found, tooLong, failed⟩ := Outcome.written_of_long listed long
  exact ⟨q, found, examine_quotes ran q found, tooLong, (build_of_examined ran).trans failed⟩

/-- What is found is told, unless a limit stands in it that has too many digits. -/
theorem build_cases (ran : examine limits ds = .ok o) : build limits ds = .ok o ∨
    ∃ p ∈ o.problems, p.Quotes limits ∧ p.isWritable = false ∧ build limits ds = .error (.unwritable p) := by
  have told := build_told ran
  by_cases long : ∃ p ∈ o.problems, p.isWritable = false
  · obtain ⟨p, listed, long⟩ := long
    exact .inr (told.long p listed long)
  · exact .inl (told.whole fun p listed => Bool.not_eq_false _ ▸ fun short => long ⟨p, listed, short⟩)

/-- Limits that ask more elements of an array than can be written. -/
def vast : Limits :=
  { Limits.usual with
    minArraySize := 10 ^ Numeral.digitLimit
    givenSize := .whole (10 ^ Numeral.digitLimit : Nat)
    one_le_minArraySize := Nat.one_le_pow _ _ (by decide) }

/-- A chest of two drawers. -/
def chest : List Descriptor :=
  [{ name := "chest", type := "object", children := some ["drawers"] },
    { name := "drawers", type := "array", parent := "chest", children := some ["depth"], size := 2 },
    { name := "depth", type := "double", parent := "drawers" }]

theorem ok_of_toOption {ε α : Type} {answer : Except ε α} {a : α} (found : answer.toOption = some a) :
    answer = .ok a := by
  cases answer with
  | error _ => cases found
  | ok _ => exact congrArg Except.ok (Option.some.inj found)

theorem chest_examined : examine vast chest = .ok (.rejected [.arraySize "drawers" vast.givenSize]) :=
  ok_of_toOption (by decide +kernel)

/-- That two drawers are too few cannot be said, as it would have to be said how many there ought to be. -/
theorem chest_unwritable : build vast chest = .error (.unwritable (.arraySize "drawers" vast.givenSize)) := by
  have given : vast.givenSize = .whole ((10 ^ Numeral.digitLimit : Nat) : Int) := rfl
  have long : vast.givenSize.isWritable = false := by
    rw [given, Amount.isWritable_whole, Numeral.not_writable (Nat.le_refl _)]
  rw [build_of_examined chest_examined, Outcome.written, Outcome.problems]
  simp only [List.find?_cons, Problem.isWritable, long, Bool.not_false]

end SchemaTree

end PayloadSchema
