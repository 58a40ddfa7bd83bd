import PayloadSchema.Json.Token

/-!
JSON text as bytes. A byte order mark names the encoding; without one, the zero bytes among the first four do,
because a JSON text starts with two ASCII characters. Anything else is UTF-8. Surrogates that stand alone are let
through; every other malformed sequence refuses the bytes.
-/
namespace PayloadSchema.Json

/-- The ways in which bytes stand for characters. -/
inductive Encoding where
  | utf8
  | utf16 (bigEndian : Bool)
  | utf32 (bigEndian : Bool)
deriving DecidableEq, Repr

namespace Encoding

/-- The encoding of a text and its bytes without the byte order mark. -/
def detect (bytes : List UInt8) : Encoding × List UInt8 :=
  match bytes with
  | 0x00 :: 0x00 :: 0xFE :: 0xFF :: rest => (utf32 true, rest)
  | 0xFF :: 0xFE :: 0x00 :: 0x00 :: rest => (utf32 false, rest)
  | 0xFE :: 0xFF :: rest => (utf16 true, rest)
  | 0xFF :: 0xFE :: rest => (utf16 false, rest)
  | 0xEF :: 0xBB :: 0xBF :: rest => (utf8, rest)
  | a :: b :: c :: d :: _ =>
    if a = 0 then (if b = 0 then utf32 true else utf16 true, bytes)
    else if b = 0 then (if c = 0 ∧ d = 0 then utf32 false else utf16 false, bytes)
    else (utf8, bytes)
  | [a, b] =>
    if a = 0 then (utf16 true, bytes) else if b = 0 then (utf16 false, bytes) else (utf8, bytes)
  | _ => (utf8, bytes)

/-- The number that a sequence of bytes stands for, the most significant byte first. -/
def joined (bytes : List UInt8) : Nat := bytes.foldl (fun n b => 256 * n + b.toNat) 0

/-- The sixteen-bit units of some bytes; a byte too many has no place in them. -/
def units16 (bigEndian : Bool) : List UInt8 → Option (List Nat)
  | [] => some []
  | [_] => none
  | a :: b :: rest => do
    return joined (if bigEndian then [a, b] else [b, a]) :: (← units16 bigEndian rest)

/-- The code points of UTF-32. -/
def units32 (bigEndian : Bool) : List UInt8 → Option (List Nat)
  | [] => some []
  | a :: b :: c :: d :: rest => do
    let code := joined (if bigEndian then [a, b, c, d] else [d, c, b, a])
    guard (code < 0x110000)
    return code :: (← units32 bigEndian rest)
  | _ => none

/-- Whether a byte continues a sequence of UTF-8. -/
def isTail (b : UInt8) : Bool := 0x80 ≤ b && b < 0xC0

/-- The code points of UTF-8. Each is written in its shortest form, and surrogates are let through. -/
def units8 : List UInt8 → Option (List Nat)
  | [] => some []
  | a :: rest =>
    if a < 0x80 then do return a.toNat :: (← units8 rest)
    else
      match rest with
      | b :: rest =>
        if !isTail b then none
        else if 0xC2 ≤ a ∧ a < 0xE0 then do
          return (0x40 * (a.toNat - 0xC0) + (b.toNat - 0x80)) :: (← units8 rest)
        else
          match rest with
          | c :: rest =>
            if !isTail c then none
            else if 0xE0 ≤ a ∧ a < 0xF0 then do
              let code := 0x1000 * (a.toNat - 0xE0) + 0x40 * (b.toNat - 0x80) + (c.toNat - 0x80)
              guard (0x800 ≤ code)
              return code :: (← units8 rest)
            else
              match rest with
              | d :: rest =>
                if isTail d ∧ 0xF0 ≤ a ∧ a < 0xF5 then do
                  let code := 0x40000 * (a.toNat - 0xF0) + 0x1000 * (b.toNat - 0x80)
                    + 0x40 * (c.toNat - 0x80) + (d.toNat - 0x80)
                  guard (0x10000 ≤ code ∧ code < 0x110000)
                  return code :: (← units8 rest)
                else none
              | [] => none
          | [] => none
      | [] => none

end Encoding

/-- The characters that some bytes stand for. -/
def decode (bytes : List UInt8) : Option Text :=
  match Encoding.detect bytes with
  | (.utf8, body) => (Encoding.units8 body).map (·.map .ofNat)
  | (.utf16 bigEndian, body) => (Encoding.units16 bigEndian body).map fun units => Token.join (units.map .unit)
  | (.utf32 bigEndian, body) => (Encoding.units32 bigEndian body).map (·.map .ofNat)

/-- A mark of two bytes names the byte order and is not part of the text. -/
example : let bracket : Text := "["
    decode [0xFE, 0xFF, 0x00, 0x5B] = some bracket ∧ decode [0xFF, 0xFE, 0x5B, 0x00] = some bracket ∧
      decode [0x00, 0x5B] = some bracket ∧ decode [0xC0, 0x80] = none := by decide +kernel

end PayloadSchema.Json
