import PayloadSchema.Descriptor.Basic
import PayloadSchema.Json.Encoding
import PayloadSchema.Json.Reader

/-!
Loading descriptors. A source is JSON text, bytes of JSON text, or a value: a list of objects, or an object that
holds such a list under `treeNodes`. Fields may hold any value and are turned into text or, for the size, into a
whole number; only the shape of the list, of its objects and of their children is insisted on.
-/
namespace PayloadSchema

/-- Where descriptors come from. -/
inductive Source where
  | absent
  | text (cs : Text)
  | bytes (bs : List UInt8)
  | value (v : Json)

/-- Why a source holds no descriptors. -/
inductive LoadError where
  | noSource
  /-- The bytes stand for no characters. -/
  | undecodable
  | unreadable (e : Json.ReadError)
  /-- There is no list where one is due. -/
  | noList (found : Json.Kind)
  /-- An item of the list is no object. -/
  | noObject (found : Json.Kind)
  /-- The children of an item are neither missing nor a list. -/
  | noChildList (found : Json.Kind)
  /-- The size is a list or an object. -/
  | sizeOfKind (found : Json.Kind)
  | sizeNotNumber
  | sizeInfinite
  /-- The size is a text that is no whole number. -/
  | sizeMalformed (text : Text)
  | sizeTooLong (digits : Nat)
deriving DecidableEq, Repr

namespace LoadError

/-- The name of a kind as messages give it. -/
def className (k : Json.Kind) : Text := "<class '" ++ k.label ++ "'>"

def tooLong (digits : Nat) : Text :=
  "Exceeds the limit (" ++ toString Numeral.digitLimit ++ " digits) for integer string conversion: value has "
    ++ toString digits ++ " digits; use sys.set_int_max_str_digits() to increase the limit"

/-- At most this many characters of a quoted text stand in a message. -/
def quoteLimit : Nat := 200

def message : LoadError → Text
  | noSource => "source must not be None"
  | undecodable => "the bytes are no text"
  | unreadable .malformed => "the text is no JSON"
  | unreadable .tooDeep => "the text is nested too deep"
  | unreadable (.tooLong digits) => tooLong digits
  | noList found => "Expected a list of node descriptors, got " ++ className found
  | noObject found => "Node descriptor must be a JSON object, got " ++ className found
  | noChildList found => "'children' must be a list, got " ++ className found
  | sizeOfKind found =>
    "int() argument must be a string, a bytes-like object or a real number, not '" ++ found.label ++ "'"
  | sizeNotNumber => "cannot convert float NaN to integer"
  | sizeInfinite => "cannot convert float infinity to integer"
  | sizeMalformed text =>
    "invalid literal for int() with base 10: "
      ++ (Text.quoted text).take quoteLimit
  | sizeTooLong digits => tooLong digits

end LoadError

namespace Descriptor

/-- A field as text. A missing one and a null are empty. -/
def fieldText : Option Json → Text
  | none | some .null => ""
  | some v => v.display

/-- A size as a whole number. A number with a fraction is cut off towards zero. -/
def readSize : Json → Except LoadError Int
  | .null => .ok unsetSize
  | .bool b => .ok (if b then 1 else 0)
  | .int i => .ok i
  | .real .nan => .error .sizeNotNumber
  | .real x => match x.truncate? with
    | some i => .ok i
    | none => .error .sizeInfinite
  | .str s => match Numeral.read s with
    | .ok i => .ok i
    | .error .malformed => .error (.sizeMalformed s)
    | .error (.tooLong digits) => .error (.sizeTooLong digits)
  | .arr _ => .error (.sizeOfKind .arr)
  | .obj _ => .error (.sizeOfKind .obj)

/-- The children of an object. Each name is whatever the item shows. -/
def readChildren : Option Json → Except LoadError (Option (List Text))
  | none | some .null => .ok none
  | some (.arr items) => .ok (some (items.map Json.display))
  | some v => .error (.noChildList v.kind)

/-- Reads the object form of a descriptor. Members with other names are ignored. -/
def ofJson : Json → Except LoadError Descriptor
  | .obj members => do
    let field := Assoc.get? members
    let children ← readChildren (field "children")
    let size ← readSize ((field "size").getD .null)
    return {
      name := fieldText (field "name")
      type := fieldText (field "type")
      parent := fieldText (field "parent")
      children := children
      size := size
      unit := fieldText (field "unit")
      description := fieldText (field "description") }
  | v => .error (.noObject v.kind)

/-- Reads every item, up to the first that is no descriptor. -/
def ofItems : List Json → Except LoadError (List Descriptor)
  | [] => .ok []
  | v :: rest => do
    let d ← ofJson v
    return d :: (← ofItems rest)

/-- Reads the list of descriptors inside a value. The names of an object's members count as its items. -/
def ofList : Json → Except LoadError (List Descriptor)
  | .arr items => ofItems items
  | .obj members => ofItems (members.map fun entry => .str entry.1)
  | v => .error (.noList v.kind)

/-- Reads the descriptors of a schema document. -/
def ofDocument : Json → Except LoadError (List Descriptor)
  | .obj members => ofList ((Assoc.get? members "treeNodes").getD .null)
  | v => ofList v

end Descriptor

namespace Source

/-- The source that a value stands for: a string is JSON text. -/
def ofJson : Json → Source
  | .null => absent
  | .str s => text s
  | v => value v

/-- The document of a source. A limit holds for the nesting of JSON text. -/
def document (depthLimit : Option Nat) : Source → Except LoadError Json
  | absent => .error .noSource
  | text cs => (Json.read depthLimit cs).mapError .unreadable
  | bytes bs => match Json.decode bs with
    | some cs => (Json.read depthLimit cs).mapError .unreadable
    | none => .error .undecodable
  | value v => .ok v

/-- The descriptors of a source, in order. -/
def load (depthLimit : Option Nat) (source : Source) : Except LoadError (List Descriptor) := do
  Descriptor.ofDocument (← source.document depthLimit)

end Source

end PayloadSchema
