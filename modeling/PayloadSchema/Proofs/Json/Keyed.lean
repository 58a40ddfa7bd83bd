import PayloadSchema.Json.Reader

/-! Member names. In a document that was read, the members of every object have different names: the reader puts a value
whose name it has seen in the place of the earlier one. -/
namespace PayloadSchema.Json

/-- Whether every object in a value has different names for its members. -/
inductive Keyed : Json → Prop where
  | null : Keyed null
  | bool (b : Bool) : Keyed (bool b)
  | int (i : Int) : Keyed (int i)
  | real (x : Binary64) : Keyed (real x)
  | str (s : Text) : Keyed (str s)
  | arr {items : List Json} (each : ∀ v ∈ items, Keyed v) : Keyed (arr items)
  | obj {members : List (Text × Json)} (distinct : (members.map Prod.fst).Nodup)
      (each : ∀ entry ∈ members, Keyed entry.2) : Keyed (obj members)

theorem Keyed.distinct {members : List (Text × Json)} (keyed : (Json.obj members).Keyed) :
    (members.map Prod.fst).Nodup := by
  cases keyed with
  | obj distinct _ => exact distinct

theorem Keyed.get?_iff {members : List (Text × Json)} (keyed : (Json.obj members).Keyed) {name : Text} {v : Json} :
    Assoc.get? members name = some v ↔ (name, v) ∈ members :=
  Assoc.get?_eq_some_iff keyed.distinct

/-! ### Documents that are read -/

/-- Whether the members of an object, as far as they are read, are those of a keyed one. -/
def KeyedMembers (members : List (Text × Json)) : Prop :=
  (members.map Prod.fst).Nodup ∧ ∀ entry ∈ members, entry.2.Keyed

theorem keyedMembers_nil : KeyedMembers [] := ⟨List.nodup_nil, fun _ none => nomatch none⟩

theorem KeyedMembers.put {members : List (Text × Json)} {v : Json} (keyed : KeyedMembers members) (value : v.Keyed)
    (key : Text) : KeyedMembers (Assoc.put members key v) := by
  refine ⟨Assoc.put_nodup members key v keyed.1, fun entry member => ?_⟩
  rcases Assoc.mem_put member with rfl | known
  · exact value
  · exact keyed.2 entry known

def Frame.Keyed : Frame → Prop
  | array items => ∀ v ∈ items, v.Keyed
  | object members _ => KeyedMembers members

def Stage.Keyed : Stage → Prop
  | value _ => True
  | key members _ | colon members _ => KeyedMembers members
  | done v => v.Keyed

def Token.Keyed : Token → Prop
  | word v => v.Keyed
  | _ => True

/-- Whether the token at the start of a text, if one is found, is keyed. -/
def FindsKeyed (found : Option (Token × Text)) : Prop := ∀ entry ∈ found, entry.1.Keyed

theorem findsKeyed_ite {p : Prop} [Decidable p] {first second : Option (Token × Text)} (yes : FindsKeyed first)
    (no : FindsKeyed second) : FindsKeyed (if p then first else second) := by
  split
  · exact yes
  · exact no

theorem findsKeyed_some {token : Token} {rest : Text} (keyed : token.Keyed) : FindsKeyed (some (token, rest)) := by
  rintro entry ⟨⟩
  exact keyed

theorem findsKeyed_map {α : Type} {found : Option α} {f : α → Token × Text} (each : ∀ a, (f a).1.Keyed) :
    FindsKeyed (found.map f) := by
  intro entry made
  obtain ⟨a, _, rfl⟩ := Option.map_eq_some_iff.mp made
  exact each a

theorem findsKeyed_word {word : Text} {v : Json} {cs : Text} (keyed : v.Keyed) :
    FindsKeyed (Token.readWord word v cs) :=
  findsKeyed_map fun _ => keyed

theorem findsKeyed_number {negative : Bool} {cs : Text} : FindsKeyed (Token.readNumber negative cs) := by
  intro entry found
  obtain ⟨_, _, same⟩ := Option.bind_eq_some_iff.mp found
  cases same
  trivial

theorem next_keyed (c : CodePoint) (cs : Text) : FindsKeyed (Token.next c cs) := by
  have signed : FindsKeyed
      ((Token.readWord "Infinity" (real (.infinite true)) cs).or (Token.readNumber true cs)) := by
    intro entry found
    rcases Option.or_eq_some_iff.mp found with word | ⟨_, number⟩
    · exact findsKeyed_word (.real _) entry word
    · exact findsKeyed_number entry number
  unfold Token.next
  iterate 6 refine findsKeyed_ite (findsKeyed_some trivial) ?_
  refine findsKeyed_ite (findsKeyed_map fun _ => trivial) ?_
  refine findsKeyed_ite (findsKeyed_word .null) ?_
  refine findsKeyed_ite (findsKeyed_word (.bool true)) (findsKeyed_ite (findsKeyed_word (.bool false)) ?_)
  refine findsKeyed_ite (findsKeyed_word (.real .nan)) (findsKeyed_ite (findsKeyed_word (.real _)) ?_)
  exact findsKeyed_ite signed findsKeyed_number

theorem scan_keyed (cs : Text) : ∀ token ∈ Token.scan cs, token.Keyed := by
  suffices each : ∀ steps cs, ∀ token ∈ Token.scanSteps steps cs, token.Keyed from each cs.length cs
  intro steps
  induction steps with
  | zero => exact fun _ _ none => nomatch none
  | succ steps ih =>
    intro cs
    unfold Token.scanSteps
    cases cs.dropWhile Token.isSpace with
    | nil => exact fun _ none => nomatch none
    | cons c rest =>
      cases ran : Token.next c rest with
      | none => simp [ran, Token.Keyed]
      | some found =>
        simp only [ran]
        exact List.forall_mem_cons.mpr ⟨next_keyed c rest found ran, ih found.2⟩

theorem number_keyed {n : Numerical} {v : Json} (ran : n.toJson = .ok v) : v.Keyed := by
  unfold Numerical.toJson at ran
  split at ran
  · split at ran
    · cases ran
    · cases ran
      exact .int _
  · cases ran
    exact .real _

/-- Whether everything read so far is keyed: what the open containers hold, and what was read last. -/
def Read (frames : List Frame) (stage : Stage) : Prop := (∀ frame ∈ frames, frame.Keyed) ∧ stage.Keyed

/-- One more token keeps what is read keyed. -/
theorem advance_keyed {limit : Option Nat} {frames after : List Frame} {stage next : Stage} {token : Token}
    (ran : advance limit frames stage token = .ok (after, next)) (keyed : Read frames stage) (value : token.Keyed) :
    Read after next := by
  obtain ⟨held, last⟩ := keyed
  unfold advance at ran
  split at ran
  case h_1 => cases ran; exact ⟨held, value⟩
  case h_2 => cases ran; exact ⟨held, .str _⟩
  case h_3 n =>
    cases number : n.toJson with
    | error e => simp [number, Bind.bind, Except.bind] at ran
    | ok v =>
      simp only [number, Bind.bind, Except.bind, Pure.pure, Except.pure] at ran
      cases ran
      exact ⟨held, number_keyed number⟩
  case h_4 =>
    split at ran <;> cases ran
    exact ⟨List.forall_mem_cons.mpr ⟨fun _ none => (nomatch none), held⟩, trivial⟩
  case h_5 =>
    split at ran <;> cases ran
    exact ⟨held, keyedMembers_nil⟩
  case h_6 =>
    split at ran <;> cases ran
    obtain ⟨items, outer⟩ := List.forall_mem_cons.mp held
    exact ⟨outer, .arr fun v member => items v (List.mem_reverse.mp member)⟩
  case h_7 => cases ran; exact ⟨held, last⟩
  case h_8 => cases ran; exact ⟨held, .obj last.1 last.2⟩
  case h_9 => cases ran; exact ⟨List.forall_mem_cons.mpr ⟨last, held⟩, trivial⟩
  case h_10 v =>
    split at ran <;> cases ran
    · obtain ⟨items, outer⟩ := List.forall_mem_cons.mp held
      exact ⟨List.forall_mem_cons.mpr ⟨List.forall_mem_cons.mpr ⟨last, items⟩, outer⟩, trivial⟩
    · obtain ⟨members, outer⟩ := List.forall_mem_cons.mp held
      exact ⟨outer, members.put last _⟩
  case h_11 v =>
    split at ran <;> cases ran
    obtain ⟨items, outer⟩ := List.forall_mem_cons.mp held
    have every : ∀ x ∈ v :: _, Json.Keyed x := List.forall_mem_cons.mpr ⟨last, items⟩
    exact ⟨outer, .arr fun x member => every x (List.mem_reverse.mp member)⟩
  case h_12 v =>
    split at ran <;> cases ran
    obtain ⟨members, outer⟩ := List.forall_mem_cons.mp held
    obtain ⟨distinct, each⟩ := members.put last _
    exact ⟨outer, .obj distinct each⟩
  case h_13 => cases ran

theorem run_keyed {limit : Option Nat} {frames : List Frame} {stage : Stage} {tokens : List Token} {v : Json}
    (ran : run limit frames stage tokens = .ok v) (keyed : Read frames stage)
    (values : ∀ token ∈ tokens, token.Keyed) : v.Keyed := by
  induction tokens generalizing frames stage with
  | nil =>
    unfold run at ran
    split at ran
    · cases ran
      exact keyed.2
    · cases ran
    · contradiction
  | cons token rest ih =>
    obtain ⟨first, others⟩ := List.forall_mem_cons.mp values
    rw [run] at ran
    cases taken : advance limit frames stage token with
    | error e => simp [taken] at ran
    | ok found => exact ih (by simpa [taken] using ran) (advance_keyed taken keyed first) others

/-- In a document that was read, no object has a member name twice. -/
theorem read_keyed {limit : Option Nat} {text : Text} {v : Json} (ran : read limit text = .ok v) : v.Keyed :=
  run_keyed ran ⟨fun _ none => (nomatch none), trivial⟩ (scan_keyed text)

end PayloadSchema.Json
