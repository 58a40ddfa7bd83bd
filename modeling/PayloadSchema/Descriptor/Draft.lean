import PayloadSchema.Descriptor.Rules
import PayloadSchema.Json.Likeness

/-!
Drafts: descriptors whose fields hold values of any kind, just as they were given. The rules for single
descriptors are the same for drafts: an empty value of any kind counts as left out, names are compared as values,
and messages show a value as text. Two fields have to be of a fitting kind, the type and the size of an array.
A draft of texts with a whole size fares as the descriptor that it stands for.
-/
namespace PayloadSchema

structure Draft where
  name : Json
  type : Json
  parent : Json := .str ""
  children : Option (List Json) := some []
  size : Json := .int Descriptor.unsetSize
  unit : Json := .str ""
  description : Json := .str ""
deriving Repr

namespace Draft

/-- Why values make no draft, or a draft cannot be inspected. -/
inductive Fault where
  /-- A field has a name that no field has. -/
  | unknownField (name : Text)
  /-- A field is called as the draft itself is. -/
  | ownName
  /-- Fields that a draft cannot do without are left out. -/
  | missingFields (names : List Text)
  /-- The children are a value that has no items. -/
  | noItems (found : Json.Kind)
  /-- The type is a value that cannot be read as a name. -/
  | typeNotText (found : Json.Kind)
  /-- The size of an array is a value that has no place among the numbers. -/
  | sizeNotNumber (found : Json.Kind)
deriving DecidableEq, Repr

/-- What the draft itself is called among its fields. -/
def selfName : Text := "self"

/-- Some names, quoted and joined as in a sentence. -/
def enumeration : List Text → Text
  | [] => ""
  | [name] => Text.quoted name
  | [first, last] => Text.quoted first ++ " and " ++ Text.quoted last
  | name :: rest => Text.quoted name ++ ", " ++ enumeration rest

def Fault.message : Fault → Text
  | unknownField name => "NodeDescriptor.__init__() got an unexpected keyword argument '" ++ name ++ "'"
  | ownName => "NodeDescriptor.__init__() got multiple values for argument '" ++ selfName ++ "'"
  | missingFields names =>
    "NodeDescriptor.__init__() missing " ++ toString names.length ++ " required positional argument"
      ++ (if names.length = 1 then "" else "s") ++ ": " ++ enumeration names
  | noItems found => found.noItems
  | typeNotText found => NodeType.notReadable found
  | sizeNotNumber found => found.noOrder

/-- The fields of a draft, those first that it cannot do without. -/
def fieldNames : List Text := ["name", "type", "parent", "children", "size", "unit", "description"]

def neededNames : List Text := ["name", "type"]

/-- The items that a value has: those of a list, the characters of a text or the member names of an object. -/
def itemsOf : Json → Except Fault (List Json)
  | .arr items => .ok items
  | .str s => .ok (s.map fun c => .str [c])
  | .obj members => .ok (members.map fun entry => .str entry.1)
  | v => .error (.noItems v.kind)

/-- The children that a value gives. -/
def childrenOf : Option Json → Except Fault (Option (List Json))
  | none => .ok (some [])
  | some .null => .ok none
  | some v => (itemsOf v).map some

/-- The draft with the given fields. -/
def ofFields (fields : List (Text × Json)) : Except Fault Draft := do
  match (fields.map Prod.fst).find? (!fieldNames.contains ·) with
  | some name => .error (if name = selfName then .ownName else .unknownField name)
  | none =>
    match Assoc.get? fields "name", Assoc.get? fields "type" with
    | some name, some type =>
      let children ← childrenOf (Assoc.get? fields "children")
      let field (key : Text) (usual : Json) := (Assoc.get? fields key).getD usual
      return {
        name := name
        type := type
        parent := field "parent" (.str "")
        children := children
        size := field "size" (.int Descriptor.unsetSize)
        unit := field "unit" (.str "")
        description := field "description" (.str "") }
    | _, _ => .error (.missingFields (neededNames.filter fun key => (Assoc.get? fields key).isNone))

/-- The draft that a descriptor is. -/
def ofDescriptor (d : Descriptor) : Draft where
  name := .str d.name
  type := .str d.type
  parent := .str d.parent
  children := d.children.map (·.map .str)
  size := .int d.size
  unit := .str d.unit
  description := .str d.description

def hasParent (d : Draft) : Bool := d.parent.isTruthy

def childNames (d : Draft) : List Json := d.children.getD []

/-- The object form of a draft, with the given children. -/
def toJsonWith (children : Json) (d : Draft) : Json :=
  .obj [("name", d.name), ("type", d.type), ("parent", d.parent), ("children", children), ("size", d.size),
    ("unit", d.unit), ("description", d.description)]

/-- The object form of a draft. -/
def toJson (d : Draft) : Json := d.toJsonWith (.arr d.childNames)

def childrenAlike : Option (List Json) → Option (List Json) → Bool
  | none, none => true
  | some items, some others => Json.alikeItems items others
  | _, _ => false

/-- Whether two drafts hold the like values. -/
def alike (d e : Draft) : Bool :=
  d.name.alike e.name && d.type.alike e.type && d.parent.alike e.parent && childrenAlike d.children e.children
    && d.size.alike e.size && d.unit.alike e.unit && d.description.alike e.description

/-- Whether a size is less than the least one allowed. -/
def isBelow (least : Nat) (size : Json) : Except Fault Bool :=
  match Amount.ofJson size with
  | .ok a => .ok (a.isBelow least)
  | .error found => .error (.sizeNotNumber found)

/-- What is wrong with name and type, where `kind?` is the type that is meant. -/
def identityProblems (d : Draft) (kind? : Option NodeType) : List Problem :=
  Problem.reportIf (!d.name.isTruthy) .unnamed ++
    if d.type.isTruthy then Problem.reportIf kind?.isNone (.unknownType d.type.display) else [.untyped]

/-- A draft of a known type in its normal form. -/
def normalizeAs (d : Draft) (kind : NodeType) : Draft :=
  { d with
    children := some d.childNames
    size := if kind = .array then d.size else .int Descriptor.unsetSize }

/-- What is wrong with the children, size and parent of a draft of a known type. -/
def shapeProblems (limits : Limits) (kind : NodeType) (d : Draft) : Except Fault (List Problem) :=
  let children := d.childNames
  let name := d.name.display
  let lists (v : Json) : Bool := children.any v.alike
  if children.isEmpty && !d.hasParent then .ok [.unconnected name]
  else do
    let small ← if kind = .array then isBelow limits.minArraySize d.size else .ok false
    return Problem.reportIf (kind.isPrimitive && !children.isEmpty) (.primitiveWithChildren name)
      ++ Problem.reportIf (kind = .object && children.isEmpty) (.objectWithoutChildren name)
      ++ Problem.reportIf (kind = .array && children.length ≠ 1) (.arrayChildren name)
      ++ Problem.reportIf (kind = .array && small) (.arraySize name limits.givenSize)
      ++ Problem.reportIf (lists d.name) (.ownChild name)
      ++ Problem.reportIf (d.hasParent && lists d.parent) (.parentAsChild name)

/-- Looks at a draft. There is a normal form when its name and type can be used. -/
def inspect (limits : Limits) (d : Draft) : Except Fault (Option Draft × List Problem) := do
  let kind? ← (NodeType.ofJson d.type).mapError .typeNotText
  let found := d.identityProblems kind?
  match kind?, found with
  | some kind, [] =>
    let normal := d.normalizeAs kind
    return (some normal, ← normal.shapeProblems limits kind)
  | _, _ => return (none, found)

theorem any_alike_str (names : List Text) (s : Text) :
    (names.map Json.str).any (Json.str s).alike = names.contains s := by
  induction names with
  | nil => rfl
  | cons n rest ih => simp [Json.alike_str, ih]

theorem childNames_ofDescriptor (d : Descriptor) : (ofDescriptor d).childNames = d.childNames.map .str := by
  cases given : d.children <;> simp [ofDescriptor, childNames, Descriptor.childNames, given]

theorem hasParent_ofDescriptor (d : Descriptor) : (ofDescriptor d).hasParent = d.hasParent := rfl

theorem identityProblems_ofDescriptor (d : Descriptor) :
    (ofDescriptor d).identityProblems d.kind? = d.identityProblems := by
  cases named : d.name.isEmpty <;> cases typed : d.type.isEmpty <;>
    simp [identityProblems, Descriptor.identityProblems, ofDescriptor, Json.isTruthy, Json.display, named, typed]

theorem normalizeAs_ofDescriptor (d : Descriptor) (kind : NodeType) :
    (ofDescriptor d).normalizeAs kind = ofDescriptor (d.normalizeAs kind) := by
  have names := childNames_ofDescriptor d
  by_cases array : kind = .array <;>
    simp [normalizeAs, Descriptor.normalizeAs, names, array] <;> simp [ofDescriptor]

theorem shapeProblems_ofDescriptor (limits : Limits) (kind : NodeType) (d : Descriptor) :
    (ofDescriptor d).shapeProblems limits kind = .ok (d.shapeProblems limits kind) := by
  have names := childNames_ofDescriptor d
  have named : (ofDescriptor d).name = .str d.name := rfl
  have parent : (ofDescriptor d).parent = .str d.parent := rfl
  have size : (ofDescriptor d).size = .int d.size := rfl
  simp only [shapeProblems, Descriptor.shapeProblems, names, named, parent, size, hasParent_ofDescriptor,
    any_alike_str, Json.display, List.isEmpty_map, List.length_map, isBelow, Amount.ofJson, Amount.isBelow]
  split
  · rfl
  · by_cases array : kind = .array <;> simp [array, Bind.bind, Except.bind, Pure.pure, Except.pure]

/-- A draft of texts with a whole size fares as the descriptor that it stands for. -/
theorem inspect_ofDescriptor (limits : Limits) (d : Descriptor) :
    inspect limits (ofDescriptor d) = .ok ((d.inspect limits).1.map ofDescriptor, (d.inspect limits).2) := by
  have read : (NodeType.ofJson (ofDescriptor d).type).mapError Fault.typeNotText = .ok d.kind? := rfl
  have identity := identityProblems_ofDescriptor d
  unfold inspect Descriptor.inspect
  rw [read]
  cases kind : d.kind? with
  | none =>
    rw [kind] at identity
    simp [Bind.bind, Except.bind, Pure.pure, Except.pure, identity]
  | some t =>
    rw [kind] at identity
    cases found : d.identityProblems with
    | nil =>
      simp [Bind.bind, Except.bind, Pure.pure, Except.pure, identity, found,
        normalizeAs_ofDescriptor, shapeProblems_ofDescriptor]
    | cons p rest =>
      simp [Bind.bind, Except.bind, Pure.pure, Except.pure, identity, found]

end Draft

end PayloadSchema
