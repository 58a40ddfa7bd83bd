import PayloadSchema.Proofs.Json.Tokens

/-! Numbers with a fraction or a power of ten as tokens. However such a number is written, its text is a single token
that stands for a number of this kind again, and never for a whole number. -/
namespace PayloadSchema

namespace Binary64.Shortest

/-! ### Digits that are found -/

theorem quarter_pos (exponent power : Int) : 0 < (gridAt exponent power).quarter :=
  Nat.mul_pos (Nat.two_pow_pos _) (Nat.pow_pos (by decide))

variable {mantissa : Nat} {exponent : Int}

/-- Zero reads back as zero only. -/
theorem zero_not_read (nonzero : mantissa ≠ 0) (power : Int) :
    (gridAt exponent power).reads mantissa exponent 0 = false := by
  have low : 0 < lowerQuarter mantissa exponent * (gridAt exponent power).quarter := by
    refine Nat.mul_pos ?_ (quarter_pos exponent power)
    unfold lowerQuarter
    split <;> omega
  have above : ¬ lowerQuarter mantissa exponent * (gridAt exponent power).quarter ≤ 0 := Nat.not_le.mpr low
  simp [Grid.reads, above]

theorem nearest_ne_zero (nonzero : mantissa ≠ 0) {power : Int} {c : Nat}
    (found : (gridAt exponent power).nearest? mantissa exponent = some c) : c ≠ 0 := by
  have positive {c : Nat} (read : (gridAt exponent power).reads mantissa exponent c = true) : c ≠ 0 := by
    rintro rfl
    exact Bool.false_ne_true ((zero_not_read nonzero power).symm.trans read)
  simp only [Grid.nearest?] at found
  split at found
  · cases found
  · next below _ =>
    cases found
    exact positive below
  · cases found
    exact Nat.succ_ne_zero _
  · next below _ =>
    split at found
    · cases found
      exact positive below
    · split at found
      · cases found
        exact Nat.succ_ne_zero _
      · split at found
        · cases found
          exact positive below
        · cases found
          exact Nat.succ_ne_zero _

theorem search_ne_zero (nonzero : mantissa ≠ 0) {grids : Nat} {start : Int} {found : Nat × Int}
    (searched : search mantissa exponent grids start = some found) : found.1 ≠ 0 := by
  induction grids generalizing start with
  | zero => cases searched
  | succ grids ih =>
    rw [search] at searched
    cases nearest : (gridAt exponent start).nearest? mantissa exponent with
    | none => exact ih (by simpa [nearest] using searched)
    | some c =>
      obtain rfl : (c, start) = found := by simpa [nearest] using searched
      exact nearest_ne_zero nonzero nearest

theorem dropZeros_ne_zero (steps : Nat) {digits : Nat} (nonzero : digits ≠ 0) (power : Int) :
    (dropZeros steps digits power).1 ≠ 0 := by
  induction steps generalizing digits power with
  | zero => exact nonzero
  | succ steps ih =>
    rw [dropZeros]
    split
    · exact ih (by omega) _
    · exact nonzero

/-- No digits but a zero are those of no power of ten. -/
theorem power_of_zero (nonzero : mantissa ≠ 0) (none : (decimal mantissa exponent).1 = 0) :
    (decimal mantissa exponent).2 = 0 := by
  simp only [decimal] at none ⊢
  split at none
  · next digits power searched => exact absurd none (dropZeros_ne_zero _ (search_ne_zero nonzero searched) _)
  · rfl

end Binary64.Shortest

namespace Json
open Token Binary64

/-! ### Their texts -/

/-- Digits behind a point, if there are any. -/
def pointText : Text → Text
  | [] => []
  | d :: ds => .char '.' :: d :: ds

/-- A power of ten, if there is one, with its sign. -/
def powerText : Option (Bool × Text) → Text
  | none => []
  | some (negative, digits) => .char 'e' :: (if negative then '-' else '+') :: digits

/-- Whether a text has the parts of a number that is not whole. -/
inductive IsMagnitude : Text → Prop where
  | mk {whole fraction : Text} {power : Option (Bool × Text)} (digits : IsWhole whole)
      (places : ∀ c ∈ fraction, c.isDigit = true)
      (exponent : ∀ p ∈ power, p.2 ≠ [] ∧ ∀ c ∈ p.2, c.isDigit = true)
      (some : fraction ≠ [] ∨ power ≠ none) : IsMagnitude (whole ++ (pointText fraction ++ powerText power))

variable {rest : Text}

theorem readFraction_append {fraction : Text} (digits : ∀ c ∈ fraction, c.isDigit = true)
    (other : ∀ c ∈ rest.head?, c.isDigit = false ∧ c ≠ '.') :
    readFraction (pointText fraction ++ rest) = (fraction, rest) := by
  cases fraction with
  | nil =>
    rw [pointText, List.nil_append]
    unfold readFraction
    split
    · exact absurd rfl (other '.' rfl).2
    · rfl
  | cons d ds =>
    have read := readDigits_append digits fun c first => (other c first).1
    rw [List.cons_append] at read
    simp only [pointText, List.cons_append, readFraction, read]

theorem readPower_append (delimited : Delimited rest) {power : Option (Bool × Text)}
    (exponent : ∀ p ∈ power, p.2 ≠ [] ∧ ∀ c ∈ p.2, c.isDigit = true) :
    readPower (powerText power ++ rest) =
      (power.map fun p => Numeral.signed p.1 (Numeral.valueOf p.2), rest) := by
  cases power with
  | none => exact readPower_none delimited
  | some p =>
    obtain ⟨negative, digits⟩ := p
    obtain ⟨some, digits'⟩ := exponent _ rfl
    have read := readDigits_append digits' fun c first => (delimited_other delimited (c := c) first).1
    obtain ⟨d, ds, rfl⟩ := List.exists_cons_of_ne_nil some
    rw [List.cons_append] at read
    cases negative <;> simp [powerText, readPower, Numeral.splitSign, read]

theorem powerText_other (delimited : Delimited rest) (power : Option (Bool × Text)) :
    ∀ c ∈ (powerText power ++ rest).head?, c.isDigit = false ∧ c ≠ '.' := by
  intro c first
  cases power with
  | none => exact ⟨(delimited_other delimited first).1, (delimited_other delimited first).2.1⟩
  | some p =>
    obtain rfl : 'e' = c := by simpa [powerText] using first
    decide

/-- A magnitude, with or without a sign, is one token. -/
theorem magnitude_spells {text : Text} (magnitude : IsMagnitude text) (negative : Bool) :
    ∃ x, Spells ((if negative then [.char '-'] else []) ++ text) (real x) := by
  obtain @⟨whole, fraction, power, digits, places, exponent, some⟩ := magnitude
  have value : ∃ x, Numerical.toJson ⟨negative, whole, fraction,
      power.map fun p => Numeral.signed p.1 (Numeral.valueOf p.2)⟩ = .ok (real x) := by
    unfold Numerical.toJson
    split
    · next none blank =>
      rcases some with shown | shown
      · exact absurd none shown
      · exact absurd (Option.map_eq_none_iff.mp blank) shown
    · exact ⟨_, rfl⟩
  obtain ⟨x, value⟩ := value
  refine ⟨x, ?_⟩
  rw [← List.append_assoc]
  refine number_spells negative digits (fun rest delimited c first => ?_) (fun rest delimited => ?_) value
  · cases fraction with
    | nil => exact (powerText_other delimited power c (by simpa [pointText] using first)).1
    | cons d ds =>
      obtain rfl : '.' = c := by simpa [pointText] using first
      rfl
  · refine ⟨powerText power ++ rest, ?_, readPower_append delimited exponent⟩
    rw [List.append_assoc]
    exact readFraction_append places (powerText_other delimited power)

/-- The first digits of a number, at least one of them, are those of a number again. -/
theorem IsWhole.take {ds : Text} (whole : IsWhole ds) {count : Nat} (some : 0 < count) :
    IsWhole (ds.take count) := by
  obtain ⟨count, rfl⟩ := Nat.exists_eq_add_one.mpr some
  rcases whole with rfl | ⟨d, behind, rfl, first, digits⟩
  · exact .inl (by simp)
  · exact .inr ⟨d, behind.take count, by simp, first, fun c member => digits c (List.mem_of_mem_take member)⟩

theorem natural_zeros {n : Nat} (nonzero : n ≠ 0) (count : Nat) :
    IsWhole (Numeral.natural n ++ List.replicate count (.char '0')) := by
  rcases natural_cases n with zero | ⟨d, ds, text, first, _⟩
  · have none := Numeral.valueOf_natural n
    rw [zero] at none
    exact absurd none.symm nonzero
  · refine .inr ⟨d, ds ++ List.replicate count (.char '0'), by rw [text, List.cons_append], first, fun c member => ?_⟩
    rcases List.mem_append.mp member with digit | padding
    · exact Numeral.digit_of_mem_natural digit
    · rw [List.eq_of_mem_replicate padding]
      rfl

theorem point_magnitude {whole fraction : Text} (digits : IsWhole whole)
    (places : ∀ c ∈ fraction, c.isDigit = true) (some : fraction ≠ []) :
    IsMagnitude (whole ++ .char '.' :: fraction) := by
  have shown : IsMagnitude (whole ++ (pointText fraction ++ powerText none)) :=
    .mk digits places (fun _ none => nomatch none) (.inl some)
  obtain ⟨d, ds, rfl⟩ := List.exists_cons_of_ne_nil some
  rwa [powerText, List.append_nil] at shown

theorem positional_magnitude {n : Nat} {power : Int} (zero : n = 0 → power = 0) :
    IsMagnitude (positionalText (Numeral.natural n) power) := by
  have digits : ∀ c ∈ Numeral.natural n, c.isDigit = true := fun _ => Numeral.digit_of_mem_natural
  unfold positionalText
  split
  · refine point_magnitude ?_ (List.forall_mem_singleton.mpr rfl) (List.cons_ne_nil _ _)
    by_cases none : n = 0
    · rw [zero none, none]
      exact .inl rfl
    · exact natural_zeros none _
  · next below =>
    dsimp only
    split
    · refine point_magnitude ((natural_isWhole n).take (by omega))
        (fun c member => digits c (List.mem_of_mem_drop member)) ?_
      rw [Ne, List.drop_eq_nil_iff]
      omega
    · refine point_magnitude (.inl rfl) (fun c member => ?_) (by simp [Numeral.natural_ne_nil])
      rcases List.mem_append.mp member with padding | digit
      · rw [List.eq_of_mem_replicate padding]
        rfl
      · exact digits c digit

theorem exponentDigits_digits (n : Nat) : exponentDigits n ≠ [] ∧ ∀ c ∈ exponentDigits n, c.isDigit = true := by
  have digits : ∀ c ∈ Numeral.natural n, c.isDigit = true := fun _ => Numeral.digit_of_mem_natural
  unfold exponentDigits
  split
  · exact ⟨List.cons_ne_nil _ _, List.forall_mem_cons.mpr ⟨rfl, digits⟩⟩
  · exact ⟨Numeral.natural_ne_nil n, digits⟩

theorem exponent_magnitude (n : Nat) (leading : Int) : IsMagnitude (exponentText (Numeral.natural n) leading) := by
  have point : IsMagnitude ((Numeral.natural n).take 1 ++ (pointText ((Numeral.natural n).drop 1) ++
      powerText (some (decide (leading < 0), exponentDigits leading.natAbs)))) :=
    .mk ((natural_isWhole n).take Nat.one_pos)
      (fun c member => Numeral.digit_of_mem_natural (List.mem_of_mem_drop member))
      (by rintro _ ⟨⟩; exact exponentDigits_digits _) (.inr (Option.some_ne_none _))
  have text : exponentText (Numeral.natural n) leading = (Numeral.natural n).take 1 ++
      (pointText ((Numeral.natural n).drop 1) ++
        powerText (some (decide (leading < 0), exponentDigits leading.natAbs))) := by
    unfold exponentText
    cases (Numeral.natural n).drop 1 <;> simp [pointText, powerText]
  rwa [text]

theorem magnitudeText_magnitude (mantissa : Nat) (exponent : Int) : IsMagnitude (magnitudeText mantissa exponent) := by
  unfold magnitudeText
  split
  · have zero : IsMagnitude ([.char '0'] ++ (pointText [.char '0'] ++ powerText none)) :=
      .mk (.inl rfl) (List.forall_mem_singleton.mpr rfl) (by simp) (by simp)
    exact zero
  · next nonzero =>
    simp only
    split
    · exact positional_magnitude (Shortest.power_of_zero nonzero)
    · exact exponent_magnitude _ _

/-- The text of a number that is not whole is one token, and stands for such a number. -/
theorem real_spells (x : Binary64) : ∃ y, Spells (writeReal x) (real y) := by
  cases x with
  | nan => exact ⟨.nan, 'N', _, .word (real .nan), rfl, rfl, fun _ _ => rfl, fun _ _ _ => rfl⟩
  | infinite negative =>
    cases negative with
    | false => exact ⟨.infinite false, 'I', _, .word (real (.infinite false)), rfl, rfl, fun _ _ => rfl, fun _ _ _ => rfl⟩
    | true => exact ⟨.infinite true, '-', _, .word (real (.infinite true)), rfl, rfl, fun _ _ => rfl, fun _ _ _ => rfl⟩
  | finite negative mantissa exponent =>
    have spelt := magnitude_spells (magnitudeText_magnitude mantissa exponent) negative
    cases negative <;> exact spelt

end Json

end PayloadSchema
