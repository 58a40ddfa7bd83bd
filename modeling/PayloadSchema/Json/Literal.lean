import PayloadSchema.Json.Basic
import PayloadSchema.Number.Notation
import PayloadSchema.Text.Quoted

/-!
Values as messages show them: `True`, `False` and `None`, strings between quotes, arrays in brackets, objects in
braces. `display` is the same but for a string that is the whole value, which stands as it is.
-/
namespace PayloadSchema.Json

mutual

def literal : Json → Text
  | null => "None"
  | bool b => if b then "True" else "False"
  | int i => Numeral.integer i
  | real x => x.write
  | str s => Text.quoted s
  | arr items => "[" ++ literalItems items ++ "]"
  | obj members => "\x7b" ++ literalMembers members ++ "\x7d"
termination_by structural v => v

def literalItems : List Json → Text
  | [] => []
  | [v] => literal v
  | v :: rest => literal v ++ ", " ++ literalItems rest
termination_by structural items => items

def literalMembers : List (Text × Json) → Text
  | [] => []
  | [(name, v)] => Text.quoted name ++ ": " ++ literal v
  | (name, v) :: rest =>
    Text.quoted name ++ ": " ++ literal v ++ ", " ++ literalMembers rest
termination_by structural members => members

end

mutual

/-- Whether a value may be shown: all numbers in it may be written. -/
def isWritable : Json → Bool
  | int i => Numeral.isWritable i
  | arr items => areWritable items
  | obj members => membersWritable members
  | null | bool _ | real _ | str _ => true
termination_by structural v => v

def areWritable : List Json → Bool
  | [] => true
  | v :: rest => isWritable v && areWritable rest
termination_by structural items => items

def membersWritable : List (Text × Json) → Bool
  | [] => true
  | (_, v) :: rest => isWritable v && membersWritable rest
termination_by structural members => members

end

/-- The text of a value outside quotes. -/
def display : Json → Text
  | str s => s
  | v => v.literal

end PayloadSchema.Json
