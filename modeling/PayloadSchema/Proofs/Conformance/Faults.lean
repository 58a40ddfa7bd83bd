import PayloadSchema.Proofs.Number.Magnitudes
import PayloadSchema.Proofs.Tree.Branches

/-! Checking without a schema. `faults` goes through a branch and a value together and says what is wrong, in the
order in which it is said of a document. `Conforms` says what it is for a value to have the shape of a branch: nothing
is wrong with just these values. -/
namespace PayloadSchema

/-- Whether a value holds no others. -/
def Json.Scalar : Json → Prop
  | arr _ | obj _ => False
  | _ => True

namespace Branch

/-! ### The direct check -/

/-- The faults of a value that ought to be a whole number of some bits. -/
def wholeFaults (bits : Nat) (place : List Spot) (v : Json) : List Violation :=
  let least : Int := -2 ^ (bits - 1)
  let most : Int := 2 ^ (bits - 1) - 1
  (if v.Whole then [] else [⟨place, .type v .integer⟩]) ++
    if v.Below least then [⟨place, .belowMinimum v least⟩]
    else if v.Above most then [⟨place, .aboveMaximum v most⟩]
    else []

/-- The faults of a value that ought to be of a primitive type. -/
def leafFaults (kind : NodeType) (place : List Spot) (v : Json) : List Violation :=
  match kind with
  | .object | .array => []
  | .string | .date | .binary =>
    match v with
    | .str _ => []
    | _ => [⟨place, .type v .string⟩]
  | .double | .decimal128 =>
    match v with
    | .int _ | .real _ => []
    | _ => [⟨place, .type v .number⟩]
  | .boolean =>
    match v with
    | .bool _ => []
    | _ => [⟨place, .type v .boolean⟩]
  | .int => wholeFaults 32 place v
  | .long => wholeFaults 64 place v

/-- One fault for each child that an object has no member for. -/
def absences (place : List Spot) (members : List (Text × Json)) (names : List Text) : List Violation :=
  (names.filter fun name => name ∉ members.map Prod.fst).map fun name => ⟨place, .missing name⟩

/-- One fault for all members of an object that are no children, named in order. -/
def strays (place : List Spot) (members : List (Text × Json)) (names : List Text) : List Violation :=
  match (members.map Prod.fst).filter fun name => name ∉ names with
  | [] => []
  | extra => [⟨place, .unexpected (extra.mergeSort Text.precedes)⟩]

/-- One fault if an array has not as many elements as it ought to have. -/
def miscount (place : List Spot) (items : List Json) (size : Int) : List Violation :=
  if items.length < size then [⟨place, .tooShort (.arr items) size⟩]
  else if size < items.length then [⟨place, .tooLong (.arr items)⟩]
  else []

mutual

/-- What is wrong with a value that ought to be as a branch says. Nothing is said of what is inside a value of the
wrong kind. -/
def faults (place : List Spot) (v : Json) : Branch → List Violation
  | .mk n children =>
    match n.kind with
    | .object =>
      match v with
      | .obj members =>
        memberFaults place members children ++ absences place members (children.map (·.name)) ++
          strays place members (children.map (·.name))
      | _ => [⟨place, .type v .object⟩]
    | .array =>
      match v with
      | .arr items => itemFaults place items children ++ miscount place items n.size
      | _ => [⟨place, .type v .array⟩]
    | kind => leafFaults kind place v
termination_by structural b => b

/-- What is wrong with the members of an object that are children, in the order of the children. -/
def memberFaults (place : List Spot) (members : List (Text × Json)) : List Branch → List Violation
  | [] => []
  | b :: rest =>
    (match Assoc.get? members b.name with
    | some inner => faults (place ++ [.member b.name]) inner b
    | none => []) ++ memberFaults place members rest
termination_by structural bs => bs

/-- What is wrong with the elements of an array, in their order. -/
def itemFaults (place : List Spot) (items : List Json) : List Branch → List Violation
  | [] => []
  | b :: _ => items.zipIdx.flatMap fun entry => faults (place ++ [.item entry.2]) entry.1 b
termination_by structural bs => bs

end

/-! ### What conforms -/

/-- A whole number of some bits. -/
def FitsBits (bits : Nat) (v : Json) : Prop :=
  v.Whole ∧ ¬ v.Below (-2 ^ (bits - 1)) ∧ ¬ v.Above (2 ^ (bits - 1) - 1)

/-- A value of a primitive type. -/
def IsLeaf (kind : NodeType) (v : Json) : Prop :=
  match kind with
  | .object | .array => True
  | .string | .date | .binary => ∃ s, v = .str s
  | .double | .decimal128 => (∃ i, v = .int i) ∨ ∃ x, v = .real x
  | .boolean => ∃ b, v = .bool b
  | .int => FitsBits 32 v
  | .long => FitsBits 64 v

mutual

/-- An object has a conforming member for each child and no others, and an array as many conforming elements as its
size says. -/
def Conforms (v : Json) : Branch → Prop
  | .mk n children =>
    match n.kind with
    | .object =>
      ∃ members, v = .obj members ∧ MembersConform members children ∧
        ∀ name ∈ members.map Prod.fst, name ∈ children.map (·.name)
    | .array => ∃ items, v = .arr items ∧ ItemsConform items children ∧ (items.length : Int) = n.size
    | kind => IsLeaf kind v
termination_by structural b => b

def MembersConform (members : List (Text × Json)) : List Branch → Prop
  | [] => True
  | b :: rest => (∃ inner, Assoc.get? members b.name = some inner ∧ Conforms inner b) ∧ MembersConform members rest
termination_by structural bs => bs

def ItemsConform (items : List Json) : List Branch → Prop
  | [] => True
  | b :: _ => ∀ v ∈ items, Conforms v b
termination_by structural bs => bs

end

/-! ### No faults -/

variable {place : List Spot} {v : Json} {members : List (Text × Json)} {n : Node} {bs : List Branch}

theorem membersConform_iff :
    MembersConform members bs ↔ ∀ b ∈ bs, ∃ inner, Assoc.get? members b.name = some inner ∧ Conforms inner b := by
  induction bs with
  | nil => simp [MembersConform]
  | cons b rest ih => rw [MembersConform, ih, List.forall_mem_cons]

theorem memberFaults_eq_nil_iff :
    memberFaults place members bs = [] ↔
      ∀ b ∈ bs, ∀ inner, Assoc.get? members b.name = some inner → faults (place ++ [.member b.name]) inner b = [] := by
  induction bs with
  | nil => simp [memberFaults]
  | cons b rest ih =>
    rw [memberFaults, List.append_eq_nil_iff, ih, List.forall_mem_cons]
    cases Assoc.get? members b.name <;> simp

theorem absences_eq_nil_iff {names : List Text} :
    absences place members names = [] ↔ ∀ name ∈ names, name ∈ members.map Prod.fst := by
  simp [absences, List.filter_eq_nil_iff]

theorem strays_eq_nil_iff {names : List Text} :
    strays place members names = [] ↔ ∀ name ∈ members.map Prod.fst, name ∈ names := by
  have none : strays place members names = [] ↔ ((members.map Prod.fst).filter fun name => name ∉ names) = [] := by
    unfold strays
    generalize ((members.map Prod.fst).filter fun name => decide (name ∉ names)) = extra
    cases extra <;> simp
  rw [none, List.filter_eq_nil_iff]
  simp only [decide_eq_true_eq, not_not]

theorem miscount_eq_nil_iff {items : List Json} {size : Int} :
    miscount place items size = [] ↔ (items.length : Int) = size := by
  unfold miscount
  split
  · simp; omega
  · split <;> simp <;> omega

theorem itemFaults_eq_nil_iff {items : List Json} (exact : ∀ b ∈ bs, ∀ place v, faults place v b = [] ↔ Conforms v b) :
    itemFaults place items bs = [] ↔ ItemsConform items bs := by
  cases bs with
  | nil => simp [itemFaults, ItemsConform]
  | cons b rest =>
    simp only [itemFaults, ItemsConform, List.flatMap_eq_nil_iff, exact b List.mem_cons_self]
    constructor
    · intro every v member
      obtain ⟨i, found⟩ := List.mem_iff_getElem?.mp member
      exact every (v, i) (List.mem_zipIdx_iff_getElem?.mpr found)
    · intro every entry member
      exact every entry.1 (List.mem_of_getElem? (List.mem_zipIdx_iff_getElem?.mp member))

theorem wholeFaults_eq_nil_iff {bits : Nat} : wholeFaults bits place v = [] ↔ FitsBits bits v := by
  by_cases whole : v.Whole
  · by_cases below : v.Below (-2 ^ (bits - 1))
    · simp [wholeFaults, FitsBits, below]
    · by_cases above : v.Above (2 ^ (bits - 1) - 1) <;> simp [wholeFaults, FitsBits, whole, below, above]
  · simp [wholeFaults, FitsBits, whole]

theorem leafFaults_eq_nil_iff {kind : NodeType} : leafFaults kind place v = [] ↔ IsLeaf kind v := by
  cases kind with
  | object | array => simp [leafFaults, IsLeaf]
  | int | long => exact wholeFaults_eq_nil_iff
  | string | double | decimal128 | boolean | date | binary => cases v <;> simp [leafFaults, IsLeaf]

/-- Nothing is wrong with a value just when it conforms. -/
theorem faults_eq_nil_iff (b : Branch) : ∀ place v, faults place v b = [] ↔ Conforms v b := by
  induction b using Branch.induction with
  | mk n bs ih =>
    intro place v
    cases kind : n.kind with
    | object =>
      simp only [faults, Conforms, kind]
      cases v with
      | obj members =>
        simp only [List.append_eq_nil_iff, memberFaults_eq_nil_iff, absences_eq_nil_iff, strays_eq_nil_iff,
          membersConform_iff, Json.obj.injEq, exists_eq_left', List.forall_mem_map, ← Assoc.isSome_get?_iff]
        refine and_congr_left fun _ => ?_
        constructor
        · rintro ⟨sound, present⟩ b member
          obtain ⟨inner, found⟩ := Option.isSome_iff_exists.mp (present b member)
          exact ⟨inner, found, (ih b member _ inner).mp (sound b member inner found)⟩
        · refine fun each => ⟨fun b member inner found => ?_, fun b member => ?_⟩
          · obtain ⟨same, known, conforms⟩ := each b member
            obtain rfl := Option.some.inj (known.symm.trans found)
            exact (ih b member _ same).mpr conforms
          · obtain ⟨inner, known, _⟩ := each b member
            rw [known, Option.isSome_some]
      | null | bool _ | int _ | real _ | str _ | arr _ => simp
    | array =>
      simp only [faults, Conforms, kind]
      cases v with
      | arr items =>
        simp only [List.append_eq_nil_iff, itemFaults_eq_nil_iff ih, miscount_eq_nil_iff, Json.arr.injEq,
          exists_eq_left']
      | null | bool _ | int _ | real _ | str _ | obj _ => simp
    | string | double | int | long | decimal128 | boolean | date | binary =>
      simp only [faults, Conforms, kind, leafFaults_eq_nil_iff]

/-! ### Scalars -/

theorem whole_scalar (whole : v.Whole) : v.Scalar := by
  obtain ⟨i, number⟩ := whole
  cases v with
  | int _ | real _ => trivial
  | null | bool _ | str _ | arr _ | obj _ => cases number

theorem leaf_scalar {kind : NodeType} (primitive : kind.isPrimitive) (leaf : IsLeaf kind v) : v.Scalar := by
  cases kind with
  | object | array => cases primitive
  | string | date | binary | boolean =>
    obtain ⟨_, rfl⟩ := leaf
    trivial
  | double | decimal128 => rcases leaf with ⟨_, rfl⟩ | ⟨_, rfl⟩ <;> trivial
  | int | long => exact whole_scalar leaf.1

end Branch

end PayloadSchema
