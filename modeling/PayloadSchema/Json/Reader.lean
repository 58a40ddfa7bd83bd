import PayloadSchema.Json.Token

/-!
Reading JSON. The reader goes through the tokens once and keeps the containers that are still open, innermost
first. Where a member name comes twice in an object, the last value stands at the place of the first.
-/
namespace PayloadSchema.Json

/-- Why a text is not read. -/
inductive ReadError where
  | malformed
  /-- A whole number has more digits than a numeral may have. -/
  | tooLong (digits : Nat)
  /-- Containers are nested deeper than the reader was told to follow. -/
  | tooDeep
deriving DecidableEq, Repr

/-- A container that is still open: its items or members so far, the last item first. -/
inductive Frame where
  | array (items : List Json)
  | object (members : List (Text × Json)) (key : Text)

/-- What may come next. -/
inductive Stage where
  /-- A value; right after an opening bracket also the closing one. -/
  | value (closable : Bool)
  /-- A member name, given the members so far; right after an opening brace also the closing one. -/
  | key (members : List (Text × Json)) (closable : Bool)
  /-- The colon after a member name. -/
  | colon (members : List (Text × Json)) (key : Text)
  /-- A separator or the end of the innermost container, after a whole value. -/
  | done (value : Json)

/-- The value of a number. It is whole unless it has a fraction or a power of ten. -/
def Numerical.toJson (n : Numerical) : Except ReadError Json :=
  match n.fraction, n.power with
  | [], none =>
    if n.whole.length > Numeral.digitLimit then .error (.tooLong n.whole.length)
    else .ok (.int (Numeral.signed n.negative (Numeral.valueOf n.whole)))
  | fraction, power =>
    .ok (.real (Binary64.ofDecimal n.negative (Numeral.valueOf (n.whole ++ fraction))
      (power.getD 0 - fraction.length)))

/-- Whether one more container may be opened where so many are open already. -/
def admits (depthLimit : Option Nat) (opened : Nat) : Bool :=
  match depthLimit with
  | none => true
  | some limit => opened < limit

/-- Takes one token. -/
def advance (depthLimit : Option Nat) (frames : List Frame) (stage : Stage) (token : Token) :
    Except ReadError (List Frame × Stage) :=
  match stage, token with
  | .value _, .word v => .ok (frames, .done v)
  | .value _, .text cs => .ok (frames, .done (.str cs))
  | .value _, .number n => return (frames, .done (← n.toJson))
  | .value _, .openArray =>
    if admits depthLimit frames.length then .ok (.array [] :: frames, .value true) else .error .tooDeep
  | .value _, .openObject =>
    if admits depthLimit frames.length then .ok (frames, .key [] true) else .error .tooDeep
  | .value true, .closeArray =>
    match frames with
    | .array items :: outer => .ok (outer, .done (.arr items.reverse))
    | _ => .error .malformed
  | .key members _, .text cs => .ok (frames, .colon members cs)
  | .key members true, .closeObject => .ok (frames, .done (.obj members))
  | .colon members key, .colon => .ok (.object members key :: frames, .value false)
  | .done v, .comma =>
    match frames with
    | .array items :: outer => .ok (.array (v :: items) :: outer, .value false)
    | .object members key :: outer => .ok (outer, .key (Assoc.put members key v) false)
    | [] => .error .malformed
  | .done v, .closeArray =>
    match frames with
    | .array items :: outer => .ok (outer, .done (.arr (v :: items).reverse))
    | _ => .error .malformed
  | .done v, .closeObject =>
    match frames with
    | .object members key :: outer => .ok (outer, .done (.obj (Assoc.put members key v)))
    | _ => .error .malformed
  | _, _ => .error .malformed

/-- Takes all tokens. -/
def run (depthLimit : Option Nat) : List Frame → Stage → List Token → Except ReadError Json
  | [], .done v, [] => .ok v
  | _, _, [] => .error .malformed
  | frames, stage, token :: rest =>
    match advance depthLimit frames stage token with
    | .error e => .error e
    | .ok (frames, stage) => run depthLimit frames stage rest

/-- Reads a text that holds one value. With a limit, deeper nesting than that is refused. -/
def read (depthLimit : Option Nat) (text : Text) : Except ReadError Json :=
  run depthLimit [] (.value false) (Token.scan text)

end PayloadSchema.Json
