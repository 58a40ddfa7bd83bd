import PayloadSchema.Tree.Basic

/-!
The JSON Schema of a tree: a list of keywords for every node, in the order in which they are written and
applied. An object wants all its children and nothing else, an array as many elements as its size says, and a
primitive node a value of its kind; integers are held to their number of bits.
-/
namespace PayloadSchema

/-- The kinds of values that a schema can ask for. -/
inductive ValueType where
  | object | array | string | number | integer | boolean
deriving DecidableEq, Repr

def ValueType.label : ValueType → Text
  | object => "object"
  | array => "array"
  | string => "string"
  | number => "number"
  | integer => "integer"
  | boolean => "boolean"

mutual

/-- A JSON Schema: its keywords in order. -/
inductive Schema where
  | mk (keywords : List Keyword)

inductive Keyword where
  /-- The version of the schema language. -/
  | dialect (uri : Text)
  | title (text : Text)
  | description (text : Text)
  | format (name : Text)
  | contentEncoding (name : Text)
  | type (t : ValueType)
  | properties (members : List (Text × Schema))
  | required (names : List Text)
  /-- Members without a schema of their own are refused. -/
  | closed
  | items (element : Schema)
  | minItems (count : Int)
  | maxItems (count : Int)
  | minimum (bound : Int)
  | maximum (bound : Int)

end

namespace Schema

def keywords : Schema → List Keyword
  | mk keywords => keywords

/-- The version of the schema language that is used. -/
def dialectUri : Text := "https://json-schema.org/draft/2020-12/schema"

/-- The keywords of a whole number of the given number of bits. -/
def wholeNumber (bits : Nat) : List Keyword :=
  let bound : Int := Nat.pow 2 (bits - 1)
  [.type .integer, .minimum (-bound), .maximum (bound - 1)]

/-- The keywords of a primitive type. Objects and arrays have keywords of their own. -/
def ofPrimitive : NodeType → List Keyword
  | .object | .array => []
  | .string => [.type .string]
  | .double | .decimal128 => [.type .number]
  | .int => wholeNumber 32
  | .long => wholeNumber 64
  | .boolean => [.type .boolean]
  | .date => [.type .string, .format "date-time"]
  | .binary => [.type .string, .contentEncoding "base64"]

/-- The keyword for a unit of measurement. -/
def ofUnit (unit : Text) : List Keyword :=
  if unit.isEmpty then [] else [.description ("unit: " ++ unit)]

mutual

/-- The keywords of a branch. -/
def keywordsOf : Branch → List Keyword
  | .mk node children =>
    match node.kind with
    | .object =>
      [.type .object, .properties (Assoc.ofPairs (membersOf children)),
        .required (children.map (·.name)), .closed]
    | .array =>
      .type .array :: elementOf children ++ [.minItems node.size, .maxItems node.size]
    | kind => ofPrimitive kind ++ ofUnit node.unit
termination_by structural b => b

def membersOf : List Branch → List (Text × Schema)
  | [] => []
  | b :: rest => (b.name, mk (keywordsOf b)) :: membersOf rest
termination_by structural bs => bs

/-- The keyword for the elements of an array. -/
def elementOf : List Branch → List Keyword
  | [] => []
  | b :: _ => [.items (mk (keywordsOf b))]
termination_by structural bs => bs

end

mutual

/-- The schema as a JSON document. -/
def toJson : Schema → Json
  | mk keywords => .obj (jsonKeywords keywords)
termination_by structural s => s

def jsonKeyword : Keyword → Text × Json
  | .dialect uri => ("$schema", .str uri)
  | .title text => ("title", .str text)
  | .description text => ("description", .str text)
  | .format name => ("format", .str name)
  | .contentEncoding name => ("contentEncoding", .str name)
  | .type t => ("type", .str t.label)
  | .properties members => ("properties", .obj (jsonMembers members))
  | .required names => ("required", .arr (names.map .str))
  | .closed => ("additionalProperties", .bool false)
  | .items element => ("items", toJson element)
  | .minItems count => ("minItems", .int count)
  | .maxItems count => ("maxItems", .int count)
  | .minimum bound => ("minimum", .int bound)
  | .maximum bound => ("maximum", .int bound)
termination_by structural k => k

def jsonKeywords : List Keyword → List (Text × Json)
  | [] => []
  | k :: rest => jsonKeyword k :: jsonKeywords rest
termination_by structural ks => ks

def jsonMembers : List (Text × Schema) → List (Text × Json)
  | [] => []
  | (name, s) :: rest => (name, toJson s) :: jsonMembers rest
termination_by structural ms => ms

end

end Schema

/-- The JSON Schema of the documents that a tree describes. -/
def SchemaTree.schema (t : SchemaTree) : Schema :=
  .mk (.dialect Schema.dialectUri :: .title t.root.name :: Schema.keywordsOf t.trunk)

end PayloadSchema
