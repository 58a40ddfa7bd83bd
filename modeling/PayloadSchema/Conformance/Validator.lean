import PayloadSchema.Conformance.Violation

/-!
Validators. Whoever checks values against schemas knows the validator by its laws: the keywords of a schema are applied
in their order, each finds what it is there for, and what is found in a part of a value is said of the place of the part.
A keyword says nothing about values it is not meant for; a number with no fraction is an integer however it is written,
and a truth value is no number.
-/
namespace PayloadSchema

namespace ValueType

/-- Whether a value is of the type. -/
def admits : ValueType → Json → Bool
  | object, .obj _ => true
  | array, .arr _ => true
  | string, .str _ => true
  | boolean, .bool _ => true
  | number, .int _ => true
  | number, .real _ => true
  | integer, .int _ => true
  | integer, .real x => x.isWhole
  | _, _ => false

end ValueType

namespace Keyword

/-- Whether a keyword is meant for a value. Some are meant for none: they only describe. -/
def concerns : Keyword → Json → Bool
  | type _, _ => true
  | properties _, .obj _ | required _, .obj _ | closed, .obj _ => true
  | items _, .arr _ | minItems _, .arr _ | maxItems _, .arr _ => true
  | minimum _, .int _ | minimum _, .real _ | maximum _, .int _ | maximum _, .real _ => true
  | _, _ => false

end Keyword

namespace Schema

/-- The names that a schema has schemas for. -/
def propertyNames (keywords : List Keyword) : List Text :=
  keywords.flatMap fun
    | .properties members => members.map Prod.fst
    | _ => []

/-- A violation by a whole value if the condition holds. -/
def breachIf (condition : Bool) (breach : Breach) : List Violation :=
  if condition then [⟨[], breach⟩] else []

/-- The members that have no schema of their own, in the order of their names. -/
def unexpectedMembers (known : List Text) (members : List (Text × Json)) : List Text :=
  ((members.map Prod.fst).filter (!known.contains ·)).mergeSort Text.precedes

/-- Whether a number is less than an integer. -/
def isBelow : Json → Int → Bool
  | .int i, bound => i < bound
  | .real x, bound => x.ltInt bound
  | _, _ => false

/-- Whether a number is greater than an integer. -/
def isAbove : Json → Int → Bool
  | .int i, bound => bound < i
  | .real x, bound => x.gtInt bound
  | _, _ => false

end Schema

/-- What finds violations. -/
structure Validator where
  /-- What a schema finds in a value. -/
  errors : Schema → Json → List Violation
  /-- What a keyword finds in a value. It may look at the keywords beside it. -/
  finds (keywords : List Keyword) : Keyword → Json → List Violation

open Schema in
/-- The laws of a validator. -/
structure Validator.Lawful (V : Validator) : Prop where
  schema (ks : List Keyword) (v : Json) : V.errors (.mk ks) v = ks.flatMap (V.finds ks · v)
  unmeant {k : Keyword} {v : Json} (other : k.concerns v = false) (ks : List Keyword) : V.finds ks k v = []
  type (ks : List Keyword) (t : ValueType) (v : Json) : V.finds ks (.type t) v = breachIf (!t.admits v) (.type v t)
  /-- The members that are there, in the order of their schemas. -/
  properties (ks : List Keyword) (schemas : List (Text × Schema)) (members : List (Text × Json)) :
    V.finds ks (.properties schemas) (.obj members) = schemas.flatMap fun s =>
      (Assoc.get? members s.1).toList.flatMap fun inner => (V.errors s.2 inner).map (·.under [.member s.1])
  required (ks : List Keyword) (names : List Text) (members : List (Text × Json)) :
    V.finds ks (.required names) (.obj members) =
      (names.filter fun name => !Assoc.contains members name).map fun name => ⟨[], .missing name⟩
  closed (ks : List Keyword) (members : List (Text × Json)) :
    V.finds ks .closed (.obj members) =
      breachIf (!(unexpectedMembers (propertyNames ks) members).isEmpty)
        (.unexpected (unexpectedMembers (propertyNames ks) members))
  items (ks : List Keyword) (element : Schema) (items : List Json) :
    V.finds ks (.items element) (.arr items) = items.zipIdx.flatMap fun entry =>
      (V.errors element entry.1).map (·.under [.item entry.2])
  minItems (ks : List Keyword) (count : Int) (items : List Json) :
    V.finds ks (.minItems count) (.arr items) = breachIf (items.length < count) (.tooShort (.arr items) count)
  maxItems (ks : List Keyword) (count : Int) (items : List Json) :
    V.finds ks (.maxItems count) (.arr items) = breachIf (count < items.length) (.tooLong (.arr items))
  minimum (ks : List Keyword) (bound : Int) (v : Json) :
    V.finds ks (.minimum bound) v = breachIf (isBelow v bound) (.belowMinimum v bound)
  maximum (ks : List Keyword) (bound : Int) (v : Json) :
    V.finds ks (.maximum bound) v = breachIf (isAbove v bound) (.aboveMaximum v bound)

namespace Schema

mutual

/-- What is wrong with a value. -/
def violations (v : Json) : Schema → List Violation
  | mk keywords => violationsOf (propertyNames keywords) v keywords
termination_by structural s => s

/-- What the keywords find, where `known` names the members that have schemas. -/
def violationsOf (known : List Text) (v : Json) : List Keyword → List Violation
  | [] => []
  | k :: rest => applyKeyword known v k ++ violationsOf known v rest
termination_by structural ks => ks

def applyKeyword (known : List Text) (v : Json) : Keyword → List Violation
  | .type t => breachIf (!t.admits v) (.type v t)
  | .properties schemas =>
    match v with
    | .obj members => violationsIn members schemas
    | _ => []
  | .required names =>
    match v with
    | .obj members => (names.filter fun name => !Assoc.contains members name).map fun name => ⟨[], .missing name⟩
    | _ => []
  | .closed =>
    match v with
    | .obj members =>
      let extra := unexpectedMembers known members
      breachIf (!extra.isEmpty) (.unexpected extra)
    | _ => []
  | .items element =>
    match v with
    | .arr items => items.zipIdx.flatMap fun entry => (violations entry.1 element).map (·.under [.item entry.2])
    | _ => []
  | .minItems count =>
    match v with
    | .arr items => breachIf (items.length < count) (.tooShort v count)
    | _ => []
  | .maxItems count =>
    match v with
    | .arr items => breachIf (count < items.length) (.tooLong v)
    | _ => []
  | .minimum bound => breachIf (isBelow v bound) (.belowMinimum v bound)
  | .maximum bound => breachIf (isAbove v bound) (.aboveMaximum v bound)
  | .dialect _ | .title _ | .description _ | .format _ | .contentEncoding _ => []
termination_by structural k => k

/-- What is wrong with those members of an object that have schemas. -/
def violationsIn (members : List (Text × Json)) : List (Text × Schema) → List Violation
  | [] => []
  | (name, s) :: rest =>
    (match Assoc.get? members name with
    | some inner => (violations inner s).map (·.under [.member name])
    | none => []) ++ violationsIn members rest
termination_by structural ms => ms

end

theorem violationsOf_eq (known : List Text) (v : Json) (ks : List Keyword) :
    violationsOf known v ks = ks.flatMap (applyKeyword known v) := by
  induction ks with
  | nil => rfl
  | cons k rest ih => rw [violationsOf, ih, List.flatMap_cons]

theorem violationsIn_eq (members : List (Text × Json)) (schemas : List (Text × Schema)) :
    violationsIn members schemas = schemas.flatMap fun s =>
      (Assoc.get? members s.1).toList.flatMap fun inner => (violations inner s.2).map (·.under [.member s.1]) := by
  induction schemas with
  | nil => rfl
  | cons s rest ih =>
    rw [violationsIn, ih, List.flatMap_cons]
    cases Assoc.get? members s.1 with
    | none => rfl
    | some inner => rw [Option.toList_some, List.flatMap_singleton]

end Schema

open Schema in
/-- The validator that goes through schema and value together. -/
def Validator.recursive : Validator where
  errors s v := violations v s
  finds keywords k v := applyKeyword (propertyNames keywords) v k

theorem Validator.recursive_lawful : recursive.Lawful where
  schema ks v := Schema.violationsOf_eq _ v ks
  unmeant {k v} other ks := by
    cases k with
    | type _ => cases other
    | minimum _ | maximum _ => cases v <;> first | rfl | cases other
    | properties _ | required _ | closed | items _ | minItems _ | maxItems _ =>
      cases v <;> first | rfl | cases other
    | dialect _ | title _ | description _ | format _ | contentEncoding _ => rfl
  type _ _ _ := rfl
  properties _ schemas members := Schema.violationsIn_eq members schemas
  required _ _ _ := rfl
  closed _ _ := rfl
  items _ _ _ := rfl
  minItems _ _ _ := rfl
  maxItems _ _ _ := rfl
  minimum _ _ _ := rfl
  maximum _ _ _ := rfl

end PayloadSchema
