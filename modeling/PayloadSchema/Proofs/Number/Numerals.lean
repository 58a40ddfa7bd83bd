import Mathlib.Algebra.Group.Nat.Defs
import Mathlib.Data.List.TakeWhile
import PayloadSchema.Number.Numeral

/-! Which texts are numerals. A whole number is read from a text exactly when digits of any script stand in it, with at
most one underscore between two of them, behind a sign or none, and with nothing but padding around. -/
namespace PayloadSchema

namespace Text

variable {drop : CodePoint → Bool}

/-- What is trimmed off a text is to be dropped. -/
theorem exists_trimBy (drop : CodePoint → Bool) (cs : Text) : ∃ before after, cs = before ++ trimBy drop cs ++ after ∧
    (∀ c ∈ before, drop c = true) ∧ ∀ c ∈ after, drop c = true := by
  have back := List.takeWhile_append_dropWhile (p := drop) (l := (cs.dropWhile drop).reverse)
  have front := List.takeWhile_append_dropWhile (p := drop) (l := cs)
  refine ⟨cs.takeWhile drop, ((cs.dropWhile drop).reverse.takeWhile drop).reverse, ?_, fun c => List.mem_takeWhile_imp,
    fun c member => List.mem_takeWhile_imp (List.mem_reverse.mp member)⟩
  rw [List.append_assoc, trimBy, ← List.reverse_append, back, List.reverse_reverse, front]

/-- Whatever stands around a text is trimmed off if it is to be dropped, and the ends of the text are not. -/
theorem trimBy_append {before core after : Text} (first : ∀ c ∈ core.head?, drop c = false)
    (last : ∀ c ∈ core.getLast?, drop c = false) (some : core ≠ []) (front : ∀ c ∈ before, drop c = true)
    (back : ∀ c ∈ after, drop c = true) : trimBy drop (before ++ core ++ after) = core := by
  obtain ⟨c, rest, rfl⟩ := List.exists_cons_of_ne_nil some
  have kept : drop c = false := first c rfl
  have whole := trimBy_of_ends first last
  rw [trimBy, List.append_assoc, List.dropWhile_append_of_pos front, List.cons_append,
    List.dropWhile_cons_of_neg (by simp [kept]), ← List.cons_append, List.reverse_append,
    List.dropWhile_append_of_pos fun c member => back c (List.mem_reverse.mp member)]
  rwa [trimBy, List.dropWhile_cons_of_neg (by simp [kept])] at whole

end Text

namespace Numeral
open Text

/-- Digits of any script and their values, with single underscores between them. -/
inductive Digits : Text → List Nat → Prop where
  | one {c : CodePoint} {d : Nat} (digit : DecimalDigit.value? c = some d) : Digits [c] [d]
  | next {c : CodePoint} {d : Nat} {cs : Text} {ds : List Nat} (digit : DecimalDigit.value? c = some d)
      (rest : Digits cs ds) : Digits (c :: cs) (d :: ds)
  | apart {c : CodePoint} {d : Nat} {cs : Text} {ds : List Nat} (digit : DecimalDigit.value? c = some d)
      (rest : Digits cs ds) : Digits (c :: '_' :: cs) (d :: ds)

/-- Whether a text stands for a whole number. -/
inductive Denotes : Text → Int → Prop where
  | mk {before sign body after : Text} {ds : List Nat} (front : ∀ c ∈ before, isPadding c = true)
      (signed : sign = [] ∨ sign = (['+'] : Text) ∨ sign = (['-'] : Text)) (digits : Digits body ds)
      (short : ds.length ≤ digitLimit) (back : ∀ c ∈ after, isPadding c = true) :
    Denotes (before ++ (sign ++ body) ++ after) (Numeral.signed (sign = (['-'] : Text)) (value ds))

variable {cs : Text} {ds out done : List Nat} {underscore : Bool}

/-- No digit is white space. -/
theorem digit_not_padding {c : CodePoint} {d : Nat} (digit : DecimalDigit.value? c = some d) : isPadding c = false := by
  have apart : ∀ run ∈ blanks, ∀ start ∈ DecimalDigit.zeros, run.2 < start ∨ start + 10 ≤ run.1 := by decide
  obtain ⟨start, found, _⟩ := Option.map_eq_some_iff.mp digit
  have known := List.mem_of_find?_eq_some found
  have bounds : start ≤ c.toNat ∧ c.toNat < start + 10 := by simpa using List.find?_some found
  have solid : isBlank c = false := by
    rw [← Bool.not_eq_true, isBlank, covers_iff]
    rintro ⟨run, listed, least, most⟩
    rcases apart run listed start known with below | above <;> omega
  rw [isPadding, solid, Bool.false_and]

theorem Digits.ends (digits : Digits cs ds) : cs ≠ [] ∧ (∀ c ∈ cs.head?, ∃ d, DecimalDigit.value? c = some d) ∧
    ∀ c ∈ cs.getLast?, ∃ d, DecimalDigit.value? c = some d := by
  induction digits with
  | one digit => simp [digit]
  | next digit rest ih =>
    obtain ⟨some, _, last⟩ := ih
    exact ⟨List.cons_ne_nil _ _, by simp [digit], by rwa [List.getLast?_cons_of_ne_nil some]⟩
  | apart digit rest ih =>
    obtain ⟨some, _, last⟩ := ih
    refine ⟨List.cons_ne_nil _ _, by simp [digit], ?_⟩
    rwa [List.getLast?_cons_of_ne_nil (List.cons_ne_nil _ _), List.getLast?_cons_of_ne_nil some]

theorem not_mark {c : CodePoint} {d : Nat} (digit : DecimalDigit.value? c = some d) : c ≠ '_' ∧ c ≠ '+' ∧ c ≠ '-' := by
  have marks : DecimalDigit.value? '_' = none ∧ DecimalDigit.value? '+' = none ∧ DecimalDigit.value? '-' = none := by
    decide
  refine ⟨?_, ?_, ?_⟩ <;> rintro rfl <;> simp [marks] at digit

theorem readRun_digits (digits : Digits cs ds) (done : List Nat) (underscore : Bool) :
    readRun done underscore cs = some (ds.reverse ++ done, false, []) := by
  induction digits generalizing done underscore with
  | one digit => simp [readRun, not_mark digit, digit]
  | next digit rest ih => simp [readRun, not_mark digit, digit, ih]
  | apart digit rest ih => simp [readRun, not_mark digit, digit, ih]

/-- A run that comes to the end of a text behind a digit has read digits, or an underscore and digits. -/
theorem digits_of_readRun (ran : readRun done underscore cs = some (out, false, [])) :
    underscore = false ∧ cs = [] ∧ out = done ∨ ∃ ds, out = ds.reverse ++ done ∧
      (Digits cs ds ∨ underscore = false ∧ ∃ rest, cs = .char '_' :: rest ∧ Digits rest ds) := by
  induction cs generalizing done underscore with
  | nil =>
    obtain ⟨rfl, rfl⟩ : done = out ∧ underscore = false := by simpa [readRun] using ran
    exact .inl ⟨rfl, rfl, rfl⟩
  | cons c rest ih =>
    rw [readRun] at ran
    by_cases mark : c = '_'
    · cases underscore with
      | true => simp [mark] at ran
      | false =>
        rcases ih (by simpa [mark] using ran) with ⟨none, _⟩ | ⟨ds, same, digits | ⟨none, _⟩⟩
        · cases none
        · exact .inr ⟨ds, same, .inr ⟨rfl, rest, by rw [mark], digits⟩⟩
        · cases none
    · rw [if_neg mark] at ran
      cases digit : DecimalDigit.value? c with
      | none => simp [digit] at ran
      | some d =>
        refine .inr ?_
        rcases ih (by simpa [digit] using ran) with ⟨_, rfl, rfl⟩ | ⟨ds, rfl, digits | ⟨_, behind, rfl, digits⟩⟩
        · exact ⟨[d], rfl, .inl (.one digit)⟩
        · exact ⟨d :: ds, by simp, .inl (.next digit digits)⟩
        · exact ⟨d :: ds, by simp, .inl (.apart digit digits)⟩

theorem splitSign_spec (cs : Text) : ∃ sign, cs = sign ++ (splitSign cs).2 ∧
    (sign = [] ∨ sign = (['+'] : Text) ∨ sign = (['-'] : Text)) ∧ (splitSign cs).1 = decide (sign = (['-'] : Text)) := by
  unfold splitSign
  split
  · exact ⟨['+'], rfl, .inr (.inl rfl), rfl⟩
  · exact ⟨['-'], rfl, .inr (.inr rfl), rfl⟩
  · exact ⟨[], rfl, .inl rfl, rfl⟩

theorem splitSign_append {sign body : Text} (signed : sign = [] ∨ sign = (['+'] : Text) ∨ sign = (['-'] : Text))
    (digits : Digits body ds) : splitSign (sign ++ body) = (decide (sign = (['-'] : Text)), body) := by
  rcases signed with rfl | rfl | rfl
  · obtain ⟨some, first, _⟩ := digits.ends
    obtain ⟨c, rest, rfl⟩ := List.exists_cons_of_ne_nil some
    obtain ⟨d, digit⟩ := first c rfl
    unfold splitSign
    split
    · next same => exact absurd (List.cons.inj same).1 (not_mark digit).2.1
    · next same => exact absurd (List.cons.inj same).1 (not_mark digit).2.2
    · rfl
  · rfl
  · rfl

theorem sign_not_padding {sign : Text} (signed : sign = [] ∨ sign = (['+'] : Text) ∨ sign = (['-'] : Text)) :
    ∀ c ∈ sign, isPadding c = false := by
  rcases signed with rfl | rfl | rfl
  · exact fun _ none => nomatch none
  · exact List.forall_mem_singleton.mpr rfl
  · exact List.forall_mem_singleton.mpr rfl

/-- Padding around a sign and digits is what is trimmed off. -/
theorem trimBy_padding {before sign body after : Text} (front : ∀ c ∈ before, isPadding c = true)
    (signed : sign = [] ∨ sign = (['+'] : Text) ∨ sign = (['-'] : Text)) (digits : Digits body ds)
    (back : ∀ c ∈ after, isPadding c = true) :
    trimBy isPadding (before ++ (sign ++ body) ++ after) = sign ++ body := by
  obtain ⟨some, first, last⟩ := digits.ends
  refine trimBy_append (fun c here => ?_) (fun c here => ?_) (by simp [some]) front back
  · cases sign with
    | nil =>
      obtain ⟨d, digit⟩ := first c here
      exact digit_not_padding digit
    | cons mark rest =>
      obtain rfl : mark = c := by simpa using here
      exact sign_not_padding signed mark List.mem_cons_self
  · rw [List.getLast?_append, List.getLast?_eq_some_getLast some, Option.some_or] at here
    rw [List.getLast?_eq_some_getLast some] at last
    obtain ⟨d, digit⟩ := last c here
    exact digit_not_padding digit

/-- What a numeral is read from: a run of digits to the end of what is left of the text. -/
theorem read_eq_ok_iff_run {text : Text} {i : Int} : read text = .ok i ↔ ∃ digits,
    readRun [] true (splitSign (trimBy isPadding text)).2 = some (digits, false, []) ∧ digits ≠ [] ∧
      digits.length ≤ digitLimit ∧ signed (splitSign (trimBy isPadding text)).1 (value digits.reverse) = i := by
  simp only [read]
  cases readRun [] true (splitSign (trimBy isPadding text)).2 with
  | none => simp
  | some run =>
    obtain ⟨digits, underscore, rest⟩ := run
    by_cases blank : digits = []
    · simp [blank]
    · by_cases long : digitLimit < digits.length
      · cases underscore <;> simp [blank, long, Nat.not_le.mpr long]
      · cases underscore <;> cases rest <;> simp [blank, long, Nat.not_lt.mp long]

/-- A text is read as a whole number exactly when it stands for it. -/
theorem read_eq_ok_iff {text : Text} {i : Int} : read text = .ok i ↔ Denotes text i := by
  rw [read_eq_ok_iff_run]
  constructor
  · rintro ⟨digits, ran, _, short, rfl⟩
    obtain ⟨before, after, whole, front, back⟩ := exists_trimBy isPadding text
    obtain ⟨sign, parts, signed, negative⟩ := splitSign_spec (trimBy isPadding text)
    rcases digits_of_readRun ran with ⟨none, _⟩ | ⟨ds, rfl, body | ⟨none, _⟩⟩
    · cases none
    · rw [List.append_nil] at short ⊢
      rw [List.length_reverse] at short
      have denotes := Denotes.mk front signed body short back
      rwa [← parts, ← whole, ← negative, ← List.reverse_reverse ds] at denotes
    · cases none
  · rintro @⟨before, sign, body, after, ds, front, signed, digits, short, back⟩
    have some : ds ≠ [] := by cases digits <;> exact List.cons_ne_nil _ _
    refine ⟨ds.reverse, ?_, by simpa using some, by rwa [List.length_reverse], ?_⟩
    · rw [trimBy_padding front signed digits back, splitSign_append signed digits, readRun_digits digits,
        List.append_nil]
    · rw [trimBy_padding front signed digits back, splitSign_append signed digits, List.reverse_reverse]

/-! ### Writing -/

theorem isWritable_iff {i : Int} : isWritable i ↔ i.natAbs < 10 ^ digitLimit := by
  rw [isWritable, decide_eq_true_iff, natural, List.length_map, Nat.length_toDigits_le_iff (by decide) (by decide)]

theorem not_writable {n : Nat} (large : 10 ^ digitLimit ≤ n) : isWritable n = false := by
  rw [← Bool.not_eq_true, isWritable_iff, Int.natAbs_natCast]
  exact Nat.not_lt.mpr large

end Numeral

end PayloadSchema
