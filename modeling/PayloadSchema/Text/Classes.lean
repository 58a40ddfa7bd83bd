import PayloadSchema.Text.CodePoint
import PayloadSchema.Text.PrintableTable

/-!
Classes of characters, given as runs of code points: the decimal digits of every script, white space, and
the characters that have a visible form. A run is the pair of its first and its last code point.
-/
namespace PayloadSchema.Text

/-- Whether a run of the table holds the character. -/
def covers (table : List (Nat × Nat)) (c : CodePoint) : Bool :=
  table.any fun run => run.1 ≤ c.toNat && c.toNat ≤ run.2

theorem covers_iff {table : List (Nat × Nat)} {c : CodePoint} :
    covers table c = true ↔ ∃ run ∈ table, run.1 ≤ c.toNat ∧ c.toNat ≤ run.2 := by
  simp [covers]

namespace DecimalDigit

/-! Each script writes its ten digits in one run, so a digit is known by the code point of the zero of its
run; `value?` is the distance to that zero. -/

/-- The zero of each run of ten decimal digits, in increasing order. -/
def zeros : List Nat := [
  0x30, 0x660, 0x6F0, 0x7C0, 0x966, 0x9E6, 0xA66, 0xAE6, 0xB66, 0xBE6,
  0xC66, 0xCE6, 0xD66, 0xDE6, 0xE50, 0xED0, 0xF20, 0x1040, 0x1090, 0x17E0,
  0x1810, 0x1946, 0x19D0, 0x1A80, 0x1A90, 0x1B50, 0x1BB0, 0x1C40, 0x1C50, 0xA620,
  0xA8D0, 0xA900, 0xA9D0, 0xA9F0, 0xAA50, 0xABF0, 0xFF10, 0x104A0, 0x10D30, 0x11066,
  0x110F0, 0x11136, 0x111D0, 0x112F0, 0x11450, 0x114D0, 0x11650, 0x116C0, 0x11730, 0x118E0,
  0x11950, 0x11C50, 0x11D50, 0x11DA0, 0x16A60, 0x16AC0, 0x16B50, 0x1D7CE, 0x1D7D8, 0x1D7E2,
  0x1D7EC, 0x1D7F6, 0x1E140, 0x1E2F0, 0x1E950, 0x1FBF0]

/-- The value of a decimal digit of any script. -/
def value? (c : CodePoint) : Option Nat :=
  (zeros.find? fun start => start ≤ c.toNat && c.toNat < start + 10).map (c.toNat - ·)

/-- The zero and the nine of the ASCII digits are digits, their outer neighbours are not. -/
example : value? '0' = some 0 ∧ value? '9' = some 9 ∧ value? '/' = none ∧ value? ':' = none := by decide

end DecimalDigit

/-! White space is wider than the ASCII blanks: it has the file, group, record and unit separators and every
space and line separator of other scripts, but neither the byte order mark nor the zero-width spaces. -/

/-- The runs of white space. -/
def blanks : List (Nat × Nat) := [
  (0x09, 0x0D), (0x1C, 0x20), (0x85, 0x85), (0xA0, 0xA0), (0x1680, 0x1680),
  (0x2000, 0x200A), (0x2028, 0x2029), (0x202F, 0x202F), (0x205F, 0x205F), (0x3000, 0x3000)]

def isBlank (c : CodePoint) : Bool := covers blanks c

/-- Removes the characters of a class from both ends. -/
def trimBy (drop : CodePoint → Bool) (cs : Text) : Text :=
  ((cs.dropWhile drop).reverse.dropWhile drop).reverse

/-- Removes white space from both ends. -/
def trim (cs : Text) : Text := trimBy isBlank cs

theorem trimBy_of_ends {drop : CodePoint → Bool} {cs : Text}
    (first : ∀ c ∈ cs.head?, drop c = false) (last : ∀ c ∈ cs.getLast?, drop c = false) :
    trimBy drop cs = cs := by
  have keep : ∀ xs : Text, (∀ c ∈ xs.head?, drop c = false) → xs.dropWhile drop = xs := by
    intro xs clear
    cases xs with
    | nil => rfl
    | cons x rest => simp [List.dropWhile, clear x (by simp)]
  simp only [trimBy, keep cs first]
  rw [keep cs.reverse (by simpa [List.head?_reverse] using last), List.reverse_reverse]

/-- Whether a quoted text shows the character as it is. Among the ASCII characters these are the ones from
the space to the tilde; above them the table of hidden runs decides. -/
def isPrintable (c : CodePoint) : Bool :=
  if c.toNat < 0x80 then 0x20 ≤ c.toNat && c.toNat < 0x7F else !covers Printable.hidden c

end PayloadSchema.Text
