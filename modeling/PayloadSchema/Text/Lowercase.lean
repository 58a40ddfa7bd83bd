import PayloadSchema.Text.CaseTable
import PayloadSchema.Text.Classes

/-!
Lower case over all scripts. Each letter is shifted on its own, with two exceptions: the dotted capital I
becomes two characters, and a capital sigma that ends a word takes its final form.
-/
namespace PayloadSchema.Text

namespace Case

/-- Whether the run has the character among its members. -/
def Run.has (run : Run) (c : CodePoint) : Bool :=
  run.first ≤ c.toNat && c.toNat ≤ run.last && (c.toNat - run.first) % run.step == 0

/-- The small form of one character, its neighbours left out of account. -/
def smallForm (c : CodePoint) : CodePoint :=
  match shifts.find? (·.has c) with
  | some run => Char.ofNat (c.toNat + run.shift).toNat
  | none => c

def isIgnorable (c : CodePoint) : Bool := covers ignorable c

def isCased (c : CodePoint) : Bool := covers cased c

/-- A sigma is final when the nearest character before it that counts is cased and the nearest one after it
is not. `before` is the text to its left, nearest character first. -/
def finalSigma (before after : Text) : Bool :=
  match before.dropWhile isIgnorable, after.dropWhile isIgnorable with
  | [], _ => false
  | left :: _, [] => isCased left
  | left :: _, right :: _ => isCased left && !isCased right

end Case

/-- The small forms of `cs`, where `before` is the text to its left, nearest character first. -/
def lowerAfter (before : Text) : Text → Text
  | [] => []
  | c :: rest =>
    let small : Text :=
      if c = 'Σ' then [if Case.finalSigma before rest then 'ς' else 'σ']
      else if c = 'İ' then ['i', '\u0307']
      else [Case.smallForm c]
    small ++ lowerAfter (c :: before) rest

/-- The lower case of a text. -/
def lowercase (text : Text) : Text := lowerAfter [] text

end PayloadSchema.Text
