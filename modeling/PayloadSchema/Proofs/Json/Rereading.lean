import PayloadSchema.Proofs.Json.Reals
import PayloadSchema.Proofs.Json.RoundTrip

/-! Reading any value from its text. What is read is the value, but that a number which is not whole has become the
number that its digits stand for. Values without such numbers come back as they are. -/
namespace PayloadSchema.Json

/-- Whether a value is read from its text by a reader that may open so many containers inside each other: its whole
numbers have no more digits than a numeral may have, no character of its strings is split in two, and the members of
its objects have different names. -/
inductive Readable : (room : Nat) → Json → Prop where
  | null {room : Nat} : Readable room null
  | bool {room : Nat} (b : Bool) : Readable room (bool b)
  | int {room : Nat} {i : Int} (short : (Numeral.natural i.natAbs).length ≤ Numeral.digitLimit) :
    Readable room (int i)
  | real {room : Nat} (x : Binary64) : Readable room (real x)
  | str {room : Nat} {s : Text} (unsplit : s.Unsplit) : Readable room (str s)
  | arr {room : Nat} {items : List Json} (each : ∀ v ∈ items, Readable room v) : Readable (room + 1) (arr items)
  | obj {room : Nat} {members : List (Text × Json)} (distinct : (members.map Prod.fst).Nodup)
      (unsplit : ∀ entry ∈ members, entry.1.Unsplit) (each : ∀ entry ∈ members, Readable room entry.2) :
    Readable (room + 1) (obj members)

/-- The number that the text of a number stands for. -/
def rereadReal (x : Binary64) : Binary64 :=
  match read none (writeReal x) with
  | .ok (real y) => y
  | _ => x

mutual

/-- A value with its numbers as their texts stand for them. -/
def reread : Json → Json
  | null => null
  | bool b => bool b
  | int i => int i
  | real x => real (rereadReal x)
  | str s => str s
  | arr items => arr (rereadItems items)
  | obj members => obj (rereadMembers members)
termination_by structural v => v

def rereadItems : List Json → List Json
  | [] => []
  | v :: rest => reread v :: rereadItems rest
termination_by structural items => items

def rereadMembers : List (Text × Json) → List (Text × Json)
  | [] => []
  | (name, v) :: rest => (name, reread v) :: rereadMembers rest
termination_by structural members => members

end

theorem rereadItems_eq (items : List Json) : rereadItems items = items.map reread := by
  induction items with
  | nil => rfl
  | cons v rest ih => rw [rereadItems, ih, List.map_cons]

theorem rereadMembers_eq (members : List (Text × Json)) :
    rereadMembers members = members.map fun entry => (entry.1, reread entry.2) := by
  induction members with
  | nil => rfl
  | cons entry rest ih => rw [rereadMembers, ih, List.map_cons]

theorem get?_rereadMembers (members : List (Text × Json)) (name : Text) :
    Assoc.get? (rereadMembers members) name = (Assoc.get? members name).map reread := by
  induction members with
  | nil => rfl
  | cons entry rest ih =>
    obtain ⟨key, v⟩ := entry
    rw [rereadMembers, Assoc.get?, Assoc.get?]
    split
    · rfl
    · exact ih

variable {limit : Option Nat} {room : Nat} {v : Json}

theorem real_spells_reread (x : Binary64) : Spells (writeReal x) (real (rereadReal x)) := by
  obtain ⟨y, spells⟩ := real_spells x
  have read : read none (writeReal x) = .ok (real y) := read_of_readsAs (v := real x) (spelt_reads spells)
  rwa [rereadReal, read]

/-- A readable value is read wherever there is room for the containers in it. -/
theorem readable_reads (readable : Readable room v) {frames : List Frame}
    (enough : ∀ most ∈ limit, frames.length + room ≤ most) : ReadsAs limit frames v v.reread := by
  induction readable generalizing frames with
  | null => exact spelt_reads (isToken_iff_spells.mp null_isToken)
  | bool b => exact spelt_reads (isToken_iff_spells.mp (bool_isToken b))
  | int short => exact spelt_reads (isToken_iff_spells.mp (int_isToken short))
  | real x => exact spelt_reads (real_spells_reread x)
  | str unsplit => exact spelt_reads (isToken_iff_spells.mp (str_isToken unsplit))
  | arr _ ih =>
    rw [reread, rereadItems_eq]
    exact array_reads enough fun v member before => ih v member (room_inside enough _)
  | obj distinct unsplit _ ih =>
    rw [reread, rereadMembers_eq]
    exact object_reads enough distinct unsplit fun entry member before key => ih entry member (room_inside enough _)

/-- The text of a readable value is read, as long as the reader follows its nesting. -/
theorem read_readable (readable : Readable room v) (enough : ∀ most ∈ limit, room ≤ most) :
    read limit v.write = .ok v.reread :=
  read_of_readsAs (readable_reads readable (by simpa using enough))

theorem Readable.mono (readable : Readable room v) {more : Nat} (wider : room ≤ more) : Readable more v := by
  induction readable generalizing more with
  | null => exact .null
  | bool b => exact .bool b
  | int short => exact .int short
  | real x => exact .real x
  | str unsplit => exact .str unsplit
  | arr _ ih =>
    obtain ⟨more, rfl⟩ := Nat.exists_eq_add_one.mpr (Nat.lt_of_lt_of_le (Nat.succ_pos _) wider)
    exact .arr fun v member => ih v member (Nat.le_of_succ_le_succ wider)
  | obj distinct unsplit _ ih =>
    obtain ⟨more, rfl⟩ := Nat.exists_eq_add_one.mpr (Nat.lt_of_lt_of_le (Nat.succ_pos _) wider)
    exact .obj distinct unsplit fun entry member => ih entry member (Nat.le_of_succ_le_succ wider)

end PayloadSchema.Json
