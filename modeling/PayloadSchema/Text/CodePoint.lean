/-!
Text as it stands in documents: any list of code points. Besides the characters these are the surrogates, of which
two together write a character in sixteen-bit units; alone they stand for nothing, but nothing keeps them out of a
text either.
-/
namespace PayloadSchema

/-- A code point: a character or a surrogate. -/
inductive CodePoint where
  | char (c : Char)
  /-- The surrogate that comes so many places after the first one. -/
  | surrogate (offset : Fin 0x800)
deriving DecidableEq, Repr

instance : Coe Char CodePoint := ⟨.char⟩

/-- Any code points one after another. -/
abbrev Text := List CodePoint

instance : DecidableEq Text := inferInstanceAs (DecidableEq (List CodePoint))

instance : BEq Text := instBEqOfDecidableEq

/-- A text of characters only. -/
def Text.ofString (s : String) : Text := s.toList.map .char

instance : Coe String Text := ⟨Text.ofString⟩

@[simp]
theorem Text.ofString_empty : Text.ofString "" = [] := rfl

@[simp]
theorem Text.ofString_eq_nil_iff {s : String} : Text.ofString s = [] ↔ s = "" := by
  rw [ofString, List.map_eq_nil_iff, String.toList_eq_nil_iff]

@[simp]
theorem Text.ofString_inj {s t : String} : Text.ofString s = Text.ofString t ↔ s = t := by
  rw [ofString, ofString, List.map_inj_right fun _ _ => CodePoint.char.inj, String.toList_inj]

namespace CodePoint

/-- The first of the surrogates. -/
def firstSurrogate : Nat := 0xD800

def toNat : CodePoint → Nat
  | char c => c.toNat
  | surrogate offset => firstSurrogate + offset

instance : Hashable CodePoint := ⟨fun p => hash p.toNat⟩

/-- The code point of a number below `0x110000`. -/
def ofNat (code : Nat) : CodePoint :=
  if firstSurrogate ≤ code ∧ code < firstSurrogate + 0x800 then surrogate (Fin.ofNat 0x800 (code - firstSurrogate))
  else char (Char.ofNat code)

/-- Characters keep clear of the surrogates. -/
theorem char_bounds (c : Char) : c.toNat < 0xD800 ∨ 0xDFFF < c.toNat ∧ c.toNat < 0x110000 := c.valid

theorem ofNat_toNat (p : CodePoint) : ofNat p.toNat = p := by
  cases p with
  | char c =>
    have bounds := char_bounds c
    have other : ¬(firstSurrogate ≤ c.toNat ∧ c.toNat < firstSurrogate + 0x800) := by
      rw [firstSurrogate]
      omega
    rw [toNat, ofNat, if_neg other, Char.ofNat_toNat]
  | surrogate offset =>
    have inside : firstSurrogate ≤ firstSurrogate + offset ∧ firstSurrogate + offset < firstSurrogate + 0x800 := by
      omega
    rw [toNat, ofNat, if_pos inside, Nat.add_sub_cancel_left]
    exact congrArg surrogate (Fin.ofNat_val_eq_self offset)

/-- Code points are ordered by their numbers. -/
instance : LE CodePoint := ⟨fun p q => p.toNat ≤ q.toNat⟩

instance (p q : CodePoint) : Decidable (p ≤ q) := inferInstanceAs (Decidable (p.toNat ≤ q.toNat))

/-- Whether a code point is one of the ASCII digits. -/
def isDigit : CodePoint → Bool
  | char c => c.isDigit
  | surrogate _ => false

theorem toNat_lt (p : CodePoint) : p.toNat < 0x110000 := by
  cases p with
  | char c =>
    have bounds := char_bounds c
    rw [toNat]
    omega
  | surrogate offset =>
    rw [toNat, firstSurrogate]
    omega

theorem toNat_injective {p q : CodePoint} (same : p.toNat = q.toNat) : p = q := by
  rw [← ofNat_toNat p, same, ofNat_toNat]

/-! ### Sixteen-bit units -/

/-- Whether a unit is the first half of a character. -/
def isHighSurrogate (unit : Nat) : Bool := 0xD800 ≤ unit && unit < 0xDC00

/-- Whether a unit is the second half of a character. -/
def isLowSurrogate (unit : Nat) : Bool := 0xDC00 ≤ unit && unit < 0xE000

/-- The character that two halves make. -/
def joined (high low : Nat) : CodePoint := char (Char.ofNat (0x10000 + 0x400 * (high - 0xD800) + (low - 0xDC00)))

/-- The units of a code point. -/
def units (p : CodePoint) : List Nat :=
  if p.toNat < 0x10000 then [p.toNat]
  else [0xD800 + (p.toNat - 0x10000) / 0x400, 0xDC00 + (p.toNat - 0x10000) % 0x400]

end CodePoint

namespace Text

/-- Whether a text is another one or comes before it, by the first code points in which they differ. -/
def precedes : Text → Text → Bool
  | [], _ => true
  | _ :: _, [] => false
  | p :: ps, q :: qs => p.toNat < q.toNat || p = q && precedes ps qs

theorem precedes_cons {p q : CodePoint} {ps qs : Text} :
    precedes (p :: ps) (q :: qs) ↔ p.toNat < q.toNat ∨ p = q ∧ precedes ps qs := by
  simp [precedes]

theorem precedes_total (s t : Text) : precedes s t ∨ precedes t s := by
  induction s generalizing t with
  | nil => exact .inl rfl
  | cons p ps ih =>
    cases t with
    | nil => exact .inr rfl
    | cons q qs =>
      rw [precedes_cons, precedes_cons]
      rcases Nat.lt_trichotomy p.toNat q.toNat with below | same | above
      · exact .inl (.inl below)
      · obtain rfl := CodePoint.toNat_injective same
        exact (ih qs).imp (fun first => .inr ⟨rfl, first⟩) fun second => .inr ⟨rfl, second⟩
      · exact .inr (.inl above)

theorem precedes_trans {s t u : Text} (first : precedes s t) (second : precedes t u) : precedes s u := by
  induction s generalizing t u with
  | nil => rfl
  | cons p ps ih =>
    cases t with
    | nil => cases first
    | cons q qs =>
      cases u with
      | nil => cases second
      | cons r rs =>
        rw [precedes_cons] at first second ⊢
        rcases first with below | ⟨rfl, first⟩
        · rcases second with above | ⟨rfl, _⟩
          · exact .inl (Nat.lt_trans below above)
          · exact .inl below
        · exact second.imp id fun ⟨same, second⟩ => ⟨same, ih first second⟩

theorem precedes_antisymm {s t : Text} (first : precedes s t) (second : precedes t s) : s = t := by
  induction s generalizing t with
  | nil =>
    cases t with
    | nil => rfl
    | cons q qs => cases second
  | cons p ps ih =>
    cases t with
    | nil => cases first
    | cons q qs =>
      rw [precedes_cons] at first second
      rcases first with below | ⟨rfl, first⟩
      · rcases second with above | ⟨rfl, _⟩
        · exact absurd above (Nat.lt_asymm below)
        · exact absurd below (Nat.lt_irrefl _)
      · rcases second with above | ⟨_, second⟩
        · exact absurd above (Nat.lt_irrefl _)
        · rw [ih first second]

end Text

end PayloadSchema
