import Mathlib.Data.List.Chain
import Mathlib.Data.List.Forall2
import PayloadSchema.Json.Reader
import PayloadSchema.Json.Writer
import PayloadSchema.Proofs.Path.Reading

/-! Written values as tokens. Strings, numbers and words are written so that one token is read from their text, up to
the delimiter behind it, and the token stands for the value: escapes give back their characters, pairs of surrogates
the character they were made of, and digits their number. -/
namespace PayloadSchema

/-- Whether no character of a text is split in two: nowhere does a high surrogate stand right before a low one. -/
def Text.Unsplit (s : Text) : Prop :=
  s.IsChain fun p q => ¬(CodePoint.isHighSurrogate p.toNat ∧ CodePoint.isLowSurrogate q.toNat)

instance (s : Text) : Decidable s.Unsplit := inferInstanceAs (Decidable (List.IsChain _ s))

/-- No character is split in two where all code points are characters. -/
theorem Text.unsplit_ofString (s : String) : (Text.ofString s).Unsplit := by
  refine List.Pairwise.isChain (List.pairwise_map.mpr (List.pairwise_of_forall fun c _ split => ?_))
  have bounds := CodePoint.char_bounds c
  have high : CodePoint.isHighSurrogate c.toNat := split.1
  rw [CodePoint.isHighSurrogate, Bool.and_eq_true, decide_eq_true_eq, decide_eq_true_eq] at high
  omega

namespace Json
open Token CodePoint

/-! ### Strings -/

theorem hexValue_hexDigit {d : Nat} (small : d < 16) : hexValue? (Text.hexDigit d) = some d := by
  have each : ∀ d < 16, hexValue? (Text.hexDigit d) = some d := by decide
  exact each d small

theorem readPieces_quote (rest : Text) : readPieces (.char '"' :: rest) = some ([], rest) := by
  rw [readPieces.eq_def]
  exact if_pos rfl

theorem readPieces_plain {c : CodePoint} (plain : ¬(c = '"' ∨ c = '\\')) (visible : 0x20 ≤ c.toNat) (rest : Text) :
    readPieces (c :: rest) = (readPieces rest).map fun read => (.plain c :: read.1, read.2) := by
  rw [not_or] at plain
  rw [readPieces.eq_def]
  simp only [if_neg plain.1, if_neg plain.2, if_neg (Nat.not_lt.mpr visible)]
  cases readPieces rest <;> rfl

/-- A letter behind a backslash stands for a character. -/
theorem readPieces_letter {letter c : CodePoint} (escape : escaped? letter = some c) (plain : letter ≠ 'u')
    (rest : Text) :
    readPieces (.char '\\' :: letter :: rest) = (readPieces rest).map fun read => (.plain c :: read.1, read.2) := by
  rw [readPieces.eq_3 _ _ _ fun _ _ _ _ _ same => absurd same plain, if_neg (by decide), if_pos rfl, escape]
  cases readPieces rest <;> rfl

theorem readPieces_escape {code : Nat} (small : code < 0x10000) (rest : Text) :
    readPieces (unitEscape code ++ rest) = (readPieces rest).map fun read => (.unit code :: read.1, read.2) := by
  have value : 4096 * (code / 16 / 16 / 16 % 16) + 256 * (code / 16 / 16 % 16) + 16 * (code / 16 % 16) + code % 16 =
      code := by omega
  have digit (n : Nat) : hexValue? (Text.hexDigit (n % 16)) = some (n % 16) :=
    hexValue_hexDigit (Nat.mod_lt n (by decide))
  simp only [unitEscape, Text.hexDigits, List.nil_append, List.cons_append]
  rw [readPieces.eq_2, if_neg (by decide), if_pos rfl]
  simp only [digit, Option.bind_eq_bind, Option.bind_some, value]
  cases readPieces rest <;> rfl

/-- Whether some pieces are what a code point may be written as. -/
def StandFor (ps : List Piece) (c : CodePoint) : Prop := ps = [.plain c] ∨ ps = c.units.map .unit

theorem readPieces_units (c : CodePoint) (rest : Text) :
    readPieces (c.units.flatMap unitEscape ++ rest) =
      (readPieces rest).map fun read => (c.units.map .unit ++ read.1, read.2) := by
  have bound := c.toNat_lt
  unfold CodePoint.units
  split
  · next basic => exact readPieces_escape basic rest
  · next large =>
    rw [List.flatMap_cons, List.flatMap_singleton, List.append_assoc, readPieces_escape (by omega),
      readPieces_escape (by omega), Option.map_map]
    rfl

/-- Every code point is read as pieces that stand for it. -/
theorem readPieces_char (c : CodePoint) : ∃ ps, StandFor ps c ∧ ∀ rest,
    readPieces (writeChar c ++ rest) = (readPieces rest).map fun read => (ps ++ read.1, read.2) := by
  unfold writeChar
  split
  · next mark =>
    refine ⟨[.plain c], .inl rfl, fun rest => ?_⟩
    rcases mark with rfl | rfl <;> exact readPieces_letter rfl (by decide) rest
  next plain =>
  iterate 5
    split
    · next same =>
      subst same
      exact ⟨[.plain _], .inl rfl, fun rest => readPieces_letter rfl (by decide) rest⟩
  split
  · next visible => exact ⟨[.plain c], .inl rfl, fun rest => readPieces_plain plain visible.1 rest⟩
  · exact ⟨_, .inr rfl, readPieces_units c⟩

theorem readPieces_string (s : Text) : ∃ parts, List.Forall₂ StandFor parts s ∧
    ∀ rest, readPieces (s.flatMap writeChar ++ .char '"' :: rest) = some (parts.flatten, rest) := by
  induction s with
  | nil => exact ⟨[], .nil, readPieces_quote⟩
  | cons c s ih =>
    obtain ⟨ps, stand, read⟩ := readPieces_char c
    obtain ⟨parts, others, behind⟩ := ih
    refine ⟨ps :: parts, .cons stand others, fun rest => ?_⟩
    rw [List.flatMap_cons, List.append_assoc, read, behind]
    rfl

/-- A unit stands for itself unless it is a high surrogate and a low one comes next. -/
theorem join_alone {code : Nat} {more : List Piece}
    (alone : ∀ low, more.head? = some (.unit low) → ¬(isHighSurrogate code ∧ isLowSurrogate low)) :
    join (.unit code :: more) = .ofNat code :: join more := by
  cases more with
  | nil => rfl
  | cons piece rest =>
    cases piece with
    | plain c => rfl
    | unit low =>
      have apart := alone low rfl
      rw [← Bool.and_eq_true] at apart
      rw [join, if_neg apart]

theorem joined_units {c : CodePoint} (large : 0x10000 ≤ c.toNat) :
    joined (0xD800 + (c.toNat - 0x10000) / 0x400) (0xDC00 + (c.toNat - 0x10000) % 0x400) = c := by
  have whole : 0x10000 + 0x400 * (0xD800 + (c.toNat - 0x10000) / 0x400 - 0xD800) +
      (0xDC00 + (c.toNat - 0x10000) % 0x400 - 0xDC00) = c.toNat := by omega
  rw [joined, whole]
  cases c with
  | char c => rw [CodePoint.toNat, Char.ofNat_toNat]
  | surrogate offset =>
    rw [CodePoint.toNat, firstSurrogate] at large
    omega

/-- Pieces that stand for a code point are joined to it, unless it is the first half of what comes next. -/
theorem join_append {ps more : List Piece} {c : CodePoint} (stand : StandFor ps c)
    (apart : ∀ low, more.head? = some (.unit low) → ¬(isHighSurrogate c.toNat ∧ isLowSurrogate low)) :
    join (ps ++ more) = c :: join more := by
  have bound := c.toNat_lt
  rcases stand with rfl | rfl
  · rw [List.singleton_append, join]
  · unfold units
    split
    · rw [List.map_singleton, List.singleton_append, join_alone apart, ofNat_toNat]
    · next large =>
      have high : isHighSurrogate (0xD800 + (c.toNat - 0x10000) / 0x400) = true := by
        simp only [isHighSurrogate, Bool.and_eq_true, decide_eq_true_eq]
        omega
      have low : isLowSurrogate (0xDC00 + (c.toNat - 0x10000) % 0x400) = true := by
        simp only [isLowSurrogate, Bool.and_eq_true, decide_eq_true_eq]
        omega
      rw [List.map_cons, List.map_singleton, List.cons_append, List.singleton_append, join, high, low, Bool.and_self,
        if_pos rfl, joined_units (Nat.le_of_not_lt large)]

/-- Pieces that begin with a low surrogate stand for this surrogate. -/
theorem StandFor.low {ps more : List Piece} {c : CodePoint} (stand : StandFor ps c) {low : Nat}
    (first : (ps ++ more).head? = some (.unit low)) (second : isLowSurrogate low) : isLowSurrogate c.toNat := by
  have bound := c.toNat_lt
  rcases stand with rfl | rfl
  · cases first
  · unfold units at first
    split at first
    · cases first
      exact second
    · cases first
      simp only [isLowSurrogate, Bool.and_eq_true, decide_eq_true_eq] at second
      omega

/-- What a text is written as is joined to the text again, if no character is split in it. -/
theorem join_flatten {parts : List (List Piece)} {s : Text} (stand : List.Forall₂ StandFor parts s)
    (unsplit : s.Unsplit) : join parts.flatten = s := by
  induction stand with
  | nil => rfl
  | @cons ps c parts rest first others ih =>
    rw [List.flatten_cons, join_append first, ih unsplit.tail]
    rintro low starts ⟨high, half⟩
    cases others with
    | nil => cases starts
    | cons second _ =>
      exact (List.isChain_cons_cons.mp unsplit).1 ⟨high, second.low (by rwa [← List.flatten_cons]) half⟩

/-- The text of a string is one token, whatever stands behind it. -/
theorem next_string {s : Text} (unsplit : s.Unsplit) (rest : Text) :
    Token.next '"' (s.flatMap writeChar ++ .char '"' :: rest) = some (.text s, rest) := by
  obtain ⟨parts, stand, read⟩ := readPieces_string s
  simp only [Token.next, read, Option.map_some, join_flatten stand unsplit]
  rfl

/-! ### Numbers -/

/-- Whether a text that goes on behind a value goes on with a separator or a closing bracket. -/
def Delimited (rest : Text) : Prop := ∀ c ∈ rest.head?, c = ',' ∨ c = ']' ∨ c = '\x7d'

variable {rest : Text}

/-- The first digit is zero for the number zero only. -/
theorem natural_cases (n : Nat) : Numeral.natural n = [.char '0'] ∨
    ∃ d ds, Numeral.natural n = d :: ds ∧ d ≠ '0' ∧ d.isDigit := by
  induction n using Nat.strongRecOn with
  | ind n ih =>
    by_cases small : n < 10
    · have each : ∀ d < 10, char d.digitChar = '0' ∨ char d.digitChar ≠ '0' ∧ (char d.digitChar).isDigit := by decide
      rw [Numeral.natural, Nat.toDigits_of_lt_base small]
      exact (each n small).imp (congrArg (· :: [])) fun first => ⟨_, [], rfl, first⟩
    · rw [Numeral.natural, Nat.toDigits_of_base_le (by decide) (by omega)]
      refine .inr ?_
      rcases ih (n / 10) (by omega) with zero | ⟨d, ds, shown, first⟩
      · have none := Numeral.valueOf_natural (n / 10)
        rw [zero] at none
        have none : 0 = n / 10 := none
        omega
      · rw [Numeral.natural] at shown
        rw [List.map_append, shown]
        exact ⟨d, _, rfl, first⟩

theorem readDigits_append {ds : Text} (digits : ∀ c ∈ ds, c.isDigit = true)
    (other : ∀ c ∈ rest.head?, c.isDigit = false) : readDigits (ds ++ rest) = (ds, rest) := by
  have behind : rest.takeWhile CodePoint.isDigit = [] ∧ rest.dropWhile CodePoint.isDigit = rest := by
    cases rest with
    | nil => exact ⟨rfl, rfl⟩
    | cons c rest => simp [other c rfl]
  rw [readDigits, List.takeWhile_append_of_pos digits, List.dropWhile_append_of_pos digits, behind.1, behind.2,
    List.append_nil]

/-- Whether digits are those of a whole number: a zero alone, or digits of which the first is not zero. -/
def IsWhole (ds : Text) : Prop :=
  ds = [.char '0'] ∨ ∃ d behind, ds = d :: behind ∧ d ≠ '0' ∧ ∀ c ∈ ds, c.isDigit = true

theorem natural_isWhole (n : Nat) : IsWhole (Numeral.natural n) :=
  (natural_cases n).imp id fun ⟨d, ds, shown, first, _⟩ =>
    ⟨d, ds, shown, first, fun _ => Numeral.digit_of_mem_natural⟩

theorem IsWhole.exists_cons {ds : Text} (whole : IsWhole ds) :
    ∃ d behind, ds = d :: behind ∧ d.isDigit = true := by
  rcases whole with rfl | ⟨d, behind, rfl, _, digits⟩
  · exact ⟨'0', [], rfl, rfl⟩
  · exact ⟨d, behind, rfl, digits d List.mem_cons_self⟩

theorem readWhole_append {ds : Text} (whole : IsWhole ds) (other : ∀ c ∈ rest.head?, c.isDigit = false) :
    readWhole (ds ++ rest) = some (ds, rest) := by
  rcases whole with rfl | ⟨d, behind, rfl, first, digits⟩
  · rfl
  · have read := readDigits_append digits other
    rw [List.cons_append] at read ⊢
    rw [readWhole, read]
    exact fun _ same => first (List.cons.inj same).1

variable (delimited : Delimited rest)
include delimited

theorem delimited_other {c : CodePoint} (first : c ∈ rest.head?) :
    c.isDigit = false ∧ c ≠ '.' ∧ ¬(c = 'e' ∨ c = 'E') := by
  rcases delimited c first with rfl | rfl | rfl <;> decide

theorem readPower_none : readPower rest = (none, rest) := by
  cases rest with
  | nil => rfl
  | cons c rest => rw [readPower, if_neg (delimited_other delimited rfl).2.2]

theorem readFraction_none : readFraction rest = ([], rest) := by
  unfold readFraction
  split
  · exact absurd rfl (delimited_other delimited rfl).2.1
  · rfl

theorem readFraction_digits {ds : Text} (some : ds ≠ []) (digits : ∀ c ∈ ds, c.isDigit = true) :
    readFraction (.char '.' :: (ds ++ rest)) = (ds, rest) := by
  have read := readDigits_append digits fun c first => (delimited_other delimited (c := c) first).1
  obtain ⟨d, ds, rfl⟩ := List.exists_cons_of_ne_nil some
  simp only [readFraction, read]

omit delimited

theorem next_digit {c : CodePoint} (digit : c.isDigit = true) (rest : Text) :
    Token.next c rest = readNumber false (c :: rest) := by
  have apart : ∀ other : CodePoint, other.isDigit = false → c ≠ other := by
    rintro other none rfl
    exact Bool.false_ne_true (none.symm.trans digit)
  simp only [Token.next, if_neg (apart '[' rfl), if_neg (apart ']' rfl), if_neg (apart '\x7b' rfl),
    if_neg (apart '\x7d' rfl), if_neg (apart ',' rfl), if_neg (apart ':' rfl), if_neg (apart '"' rfl),
    if_neg (apart 'n' rfl), if_neg (apart 't' rfl), if_neg (apart 'f' rfl), if_neg (apart 'N' rfl),
    if_neg (apart 'I' rfl), if_neg (apart '-' rfl)]

theorem next_minus {c : CodePoint} (digit : c.isDigit = true) (rest : Text) :
    Token.next '-' (c :: rest) = readNumber true (c :: rest) := by
  have apart : 'I' ≠ c := by
    rintro rfl
    exact Bool.false_ne_true digit
  have wordless : readWord "Infinity" (.real (.infinite true)) (c :: rest) = none := by
    have begins : ("Infinity" : Text) = .char 'I' :: "nfinity" := by decide
    rw [readWord, begins, after?, if_neg apart, Option.map_none]
  simp only [Token.next, wordless, Option.none_or]
  rfl

/-- How a value is written that is read from a single token. -/
structure Shown (v : Json) (c : CodePoint) (cs : Text) (token : Token) : Prop where
  text : v.write = c :: cs
  visible : isSpace c = false
  read : ∀ rest, Delimited rest → Token.next c (cs ++ rest) = some (token, rest)
  means : ∀ limit frames closable, advance limit frames (.value closable) token = .ok (frames, .done v)

/-- Whether a value is written as one token. -/
def IsToken (v : Json) : Prop := ∃ c cs token, Shown v c cs token

theorem null_isToken : IsToken null :=
  ⟨'n', _, .word null, rfl, rfl, fun _ _ => rfl, fun _ _ _ => rfl⟩

theorem bool_isToken (b : Bool) : IsToken (bool b) := by
  cases b with
  | true => exact ⟨'t', _, .word (bool true), rfl, rfl, fun _ _ => rfl, fun _ _ _ => rfl⟩
  | false => exact ⟨'f', _, .word (bool false), rfl, rfl, fun _ _ => rfl, fun _ _ _ => rfl⟩

theorem str_isToken {s : Text} (unsplit : s.Unsplit) : IsToken (str s) := by
  refine ⟨'"', _, .text s, rfl, rfl, fun rest _ => ?_, fun _ _ _ => ?_⟩
  · have text : s.flatMap writeChar ++ [.char '"'] ++ rest = s.flatMap writeChar ++ .char '"' :: rest := by simp
    exact (congrArg (Token.next '"') text).trans (next_string unsplit rest)
  · rw [advance]

/-- Whether a text is read as one token, which stands for a value. -/
def Spells (text : Text) (v : Json) : Prop :=
  ∃ c cs token, text = c :: cs ∧ isSpace c = false ∧
    (∀ rest, Delimited rest → Token.next c (cs ++ rest) = some (token, rest)) ∧
    ∀ limit frames closable, advance limit frames (.value closable) token = .ok (frames, .done v)

theorem isToken_iff_spells {v : Json} : IsToken v ↔ Spells v.write v :=
  ⟨fun ⟨c, cs, token, shown⟩ => ⟨c, cs, token, shown.text, shown.visible, shown.read, shown.means⟩,
    fun ⟨c, cs, token, spelt, visible, read, means⟩ => ⟨c, cs, token, spelt, visible, read, means⟩⟩

/-- A sign, the digits of a whole number and what may stand behind them are one token. -/
theorem number_spells {v : Json} {whole tail fraction : Text} {power : Option Int} (negative : Bool)
    (digits : IsWhole whole) (other : ∀ rest, Delimited rest → ∀ c ∈ (tail ++ rest).head?, c.isDigit = false)
    (behind : ∀ rest, Delimited rest → ∃ middle, readFraction (tail ++ rest) = (fraction, middle) ∧
      readPower middle = (power, rest))
    (value : Numerical.toJson ⟨negative, whole, fraction, power⟩ = .ok v) :
    Spells ((if negative then [.char '-'] else []) ++ whole ++ tail) v := by
  have number (rest : Text) (delimited : Delimited rest) : readNumber negative (whole ++ tail ++ rest) =
      some (.number ⟨negative, whole, fraction, power⟩, rest) := by
    obtain ⟨middle, point, mark⟩ := behind rest delimited
    rw [readNumber, List.append_assoc, readWhole_append digits (other rest delimited)]
    simp only [Option.bind_eq_bind, Option.bind_some, point, mark]
    rfl
  have means (limit : Option Nat) (frames : List Frame) (closable : Bool) :
      advance limit frames (.value closable) (.number ⟨negative, whole, fraction, power⟩) =
        .ok (frames, .done v) := by
    simp only [advance, value]
    rfl
  obtain ⟨d, ds, rfl, digit⟩ := digits.exists_cons
  cases negative with
  | true => exact ⟨'-', d :: ds ++ tail, _, rfl, rfl, fun rest delimited =>
      (next_minus digit _).trans (number rest delimited), means⟩
  | false =>
    refine ⟨d, ds ++ tail, _, rfl, ?_, fun rest delimited => (next_digit digit _).trans (number rest delimited), means⟩
    rw [← Bool.not_eq_true]
    intro space
    simp only [isSpace, Bool.or_eq_true, decide_eq_true_eq] at space
    rcases space with ((rfl | rfl) | rfl) | rfl <;> cases digit

/-- A value is one token if it is written as a sign, the digits of a number and the digits behind a point, and these
make up the value. -/
theorem number_isToken {v : Json} (negative : Bool) (n : Nat) (tail fraction : Text)
    (text : v.write = (if negative then [.char '-'] else []) ++ Numeral.natural n ++ tail)
    (other : ∀ rest, Delimited rest → ∀ c ∈ (tail ++ rest).head?, c.isDigit = false)
    (behind : ∀ rest, Delimited rest → readFraction (tail ++ rest) = (fraction, rest))
    (value : Numerical.toJson ⟨negative, Numeral.natural n, fraction, none⟩ = .ok v) : IsToken v := by
  rw [isToken_iff_spells, text]
  exact number_spells negative (natural_isWhole n) other
    (fun rest delimited => ⟨rest, behind rest delimited, readPower_none delimited⟩) value

/-- Whole numbers are one token unless they have more digits than a numeral may have. -/
theorem int_isToken {i : Int} (short : (Numeral.natural i.natAbs).length ≤ Numeral.digitLimit) : IsToken (int i) := by
  refine number_isToken (decide (i < 0)) i.natAbs [] [] ?_
    (fun rest delimited c first => (delimited_other delimited first).1) (fun rest => readFraction_none) ?_
  · rw [write, Numeral.integer]
    split <;> simp [*]
  · simp only [Numerical.toJson, if_neg (Nat.not_lt.mpr short), Numeral.valueOf_natural, Numeral.signed,
      decide_eq_true_eq]
    congr 2
    split <;> omega

/-- A number that is written in positional form is one token if its digits are rounded to it. -/
theorem real_isToken {x : Binary64} (n : Nat) (fraction : Text)
    (text : writeReal x = Numeral.natural n ++ .char '.' :: fraction) (some : fraction ≠ [])
    (digits : fraction.all CodePoint.isDigit)
    (value : Binary64.ofDecimal false (Numeral.valueOf (Numeral.natural n ++ fraction)) (-fraction.length) = x) :
    IsToken (real x) := by
  refine number_isToken false n (.char '.' :: fraction) fraction text ?_
    (fun rest delimited => readFraction_digits delimited some (List.all_eq_true.mp digits)) ?_
  · rintro rest delimited c ⟨⟩
    rfl
  · obtain ⟨d, ds, rfl⟩ := List.exists_cons_of_ne_nil some
    simp only [Numerical.toJson, Option.getD_none, Int.zero_sub, value]

end Json

end PayloadSchema
