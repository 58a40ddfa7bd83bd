import PayloadSchema.Descriptor.Basic
import PayloadSchema.Limits
import PayloadSchema.NodeType
import PayloadSchema.Problem

/-!
The rules for descriptors before they are linked. A descriptor without a usable name and type, or without any
connection, is looked at no further; the rules for the whole list are looked at when every descriptor passes
its own. On the way missing children become an empty list and the size of what is no array is unset.
-/
namespace PayloadSchema.Descriptor

/-- The type a descriptor declares. -/
def kind? (d : Descriptor) : Option NodeType := NodeType.lookup d.type

/-- What is wrong with name and type. -/
def identityProblems (d : Descriptor) : List Problem :=
  Problem.reportIf d.name.isEmpty .unnamed ++
    if d.type.isEmpty then [.untyped] else Problem.reportIf d.kind?.isNone (.unknownType d.type)

/-- A descriptor of a known type in its normal form. -/
def normalizeAs (d : Descriptor) (kind : NodeType) : Descriptor :=
  { d with
    children := some d.childNames
    size := if kind = .array then d.size else unsetSize }

/-- What is wrong with the children, size and parent of a descriptor of a known type. -/
def shapeProblems (limits : Limits) (kind : NodeType) (d : Descriptor) : List Problem :=
  let children := d.childNames
  if children.isEmpty && !d.hasParent then [.unconnected d.name]
  else
    Problem.reportIf (kind.isPrimitive && !children.isEmpty) (.primitiveWithChildren d.name)
      ++ Problem.reportIf (kind = .object && children.isEmpty) (.objectWithoutChildren d.name)
      ++ Problem.reportIf (kind = .array && children.length ≠ 1) (.arrayChildren d.name)
      ++ Problem.reportIf (kind = .array && d.size < limits.minArraySize) (.arraySize d.name limits.givenSize)
      ++ Problem.reportIf (children.contains d.name) (.ownChild d.name)
      ++ Problem.reportIf (d.hasParent && children.contains d.parent) (.parentAsChild d.name)

/-- Looks at one descriptor. There is a normal form when its name and type can be used. -/
def inspect (limits : Limits) (d : Descriptor) : Option Descriptor × List Problem :=
  match d.kind? with
  | some kind =>
    if d.identityProblems.isEmpty then
      let normal := d.normalizeAs kind
      (some normal, normal.shapeProblems limits kind)
    else (none, d.identityProblems)
  | none => (none, d.identityProblems)

/-- The name that has to be distinct from all others. -/
def key (d : Descriptor) : Text := Text.lowercase d.name

/-- The first of each group of names that differ in letter case at most, given the keys that came before. -/
def repeatedNames (seen : List Text) : List (Text × Text) → List Problem
  | [] => []
  | (key, name) :: rest =>
    Problem.reportIf (!seen.contains key && (rest.map Prod.fst).contains key) (.repeatedName name)
      ++ repeatedNames (key :: seen) rest

/-- What is wrong with the descriptors as a whole. -/
def collectionProblems (ds : List Descriptor) : List Problem :=
  repeatedNames [] (ds.map fun d => (d.key, d.name)) ++
    match ds.filter (!·.hasParent) with
    | [root] => Problem.reportIf (root.kind? ≠ some .object) .rootType
    | _ => [.rootCount]

/-- Looks at all descriptors. The answer has the normal forms and the problems of the first stage with any. -/
def validate (limits : Limits) (ds : List Descriptor) : List Descriptor × List Problem :=
  let looks := ds.map (inspect limits)
  let normal := looks.filterMap Prod.fst
  let problems := looks.flatMap Prod.snd
  if problems.isEmpty then (normal, collectionProblems normal) else (normal, problems)

end PayloadSchema.Descriptor
