import PayloadSchema.Assoc
import PayloadSchema.Json.Amount

/-!
Containers with room for so many values. Whoever keeps values in one knows it by what can be asked of it, and by the
laws of those that drop what was used least recently. What room a container may have is its own affair. A shelf is one
that has its values in the order of their use.
-/
namespace PayloadSchema

/-- What can be asked of a container of values by their keys. -/
structure Container (κ α : Type) where
  State : Type
  /-- An empty container with room for so many values, if there is one. -/
  fresh : Amount → Option State
  room : State → Nat
  /-- The number of values there are. -/
  size : State → Nat
  has : State → κ → Bool
  /-- The value of a key, and the container after it was read. -/
  read : State → κ → Option α × State
  /-- Gives a key a value. There may not be room for even one. -/
  write : State → κ → α → Option State
  clear : State → State

namespace Container

/-- What is said where there is no container with so little room. -/
def negativeRoom : Text := "maxsize must be non-negative"

/-- What is said where there is no room for even one value. -/
def tooLarge : Text := "value too large"

variable {κ α : Type} [DecidableEq κ]

/-- The entries with that of a key in front of the others. -/
def front (entries : List (κ × α)) (key : κ) (value : α) : List (κ × α) :=
  (key, value) :: entries.filter (·.1 ≠ key)

/-- The laws of a container that drops what was used least recently. Its entries are told in the order of their use,
the one used last first. -/
structure Lru (K : Container κ α) (entries : K.State → List (κ × α)) : Prop where
  fresh {given : Amount} (enough : given.isBelow 0 = false) :
    ∃ s, K.fresh given = some s ∧ entries s = [] ∧ K.room s = given.most
  negative {given : Amount} (below : given.isBelow 0) : K.fresh given = none
  size (s : K.State) : K.size s = (entries s).length
  has (s : K.State) (key : κ) : K.has s key = true ↔ key ∈ (entries s).map Prod.fst
  /-- Reading a value is using it. -/
  hit (s : K.State) {key : κ} {value : α} (there : (key, value) ∈ entries s) :
    ∃ s', K.read s key = (some value, s') ∧ entries s' = front (entries s) key value ∧ K.room s' = K.room s
  miss (s : K.State) {key : κ} (away : key ∉ (entries s).map Prod.fst) : K.read s key = (none, s)
  /-- Writing a value is using it, and what there is no room for behind it is dropped. -/
  write (s : K.State) (key : κ) (value : α) (room : K.room s ≠ 0) :
    ∃ s', K.write s key value = some s' ∧ entries s' = (front (entries s) key value).take (K.room s) ∧
      K.room s' = K.room s
  full (s : K.State) (key : κ) (value : α) (noRoom : K.room s = 0) : K.write s key value = none
  clear (s : K.State) : entries (K.clear s) = [] ∧ K.room (K.clear s) = K.room s

theorem front_distinct {entries : List (κ × α)} (distinct : (entries.map Prod.fst).Nodup) (key : κ) (value : α) :
    ((front entries key value).map Prod.fst).Nodup := by
  refine List.nodup_cons.mpr ⟨fun again => ?_, distinct.sublist (List.filter_sublist.map _)⟩
  obtain ⟨entry, kept, same⟩ := List.mem_map.mp again
  exact absurd same (by simpa using (List.mem_filter.mp kept).2)

end Container

/-- Values in the order of their use, with room for so many. -/
structure Shelf (κ α : Type) where
  capacity : Nat
  /-- The values by keys, the one used last first. -/
  entries : List (κ × α) := []
  distinct : (entries.map Prod.fst).Nodup := by exact List.nodup_nil

namespace Shelf

open Container

variable {κ α : Type} [DecidableEq κ]

def read (s : Shelf κ α) (key : κ) : Option α × Shelf κ α :=
  match Assoc.get? s.entries key with
  | some value => (some value, ⟨s.capacity, front s.entries key value, front_distinct s.distinct key value⟩)
  | none => (none, s)

def write (s : Shelf κ α) (key : κ) (value : α) : Option (Shelf κ α) :=
  if s.capacity = 0 then none
  else
    let kept := (front_distinct s.distinct key value).sublist ((List.take_sublist s.capacity _).map _)
    some ⟨s.capacity, (front s.entries key value).take s.capacity, kept⟩

/-- No shelf has room for fewer than no values. -/
def fresh (given : Amount) : Option (Shelf κ α) := if given.isBelow 0 then none else some { capacity := given.most }

def container (κ α : Type) [DecidableEq κ] : Container κ α where
  State := Shelf κ α
  fresh := fresh
  room := capacity
  size s := s.entries.length
  has s := Assoc.contains s.entries
  read := read
  write := write
  clear s := { capacity := s.capacity }

theorem container_lru : (container κ α).Lru entries where
  fresh enough := ⟨_, if_neg (Bool.eq_false_iff.mp enough), rfl, rfl⟩
  negative below := if_pos below
  size _ := rfl
  has _ _ := Assoc.isSome_get?_iff
  hit s key value there := by
    have found : Assoc.get? s.entries key = some value := (Assoc.get?_eq_some_iff s.distinct).mpr there
    have fronted : s.read key =
        (some value, ⟨s.capacity, front s.entries key value, front_distinct s.distinct key value⟩) := by
      simp only [read, found]
    exact ⟨_, fronted, rfl, rfl⟩
  miss s key away := by
    cases found : Assoc.get? s.entries key with
    | none => simp only [container, read, found]
    | some value => exact absurd (Assoc.isSome_get?_iff.mp (found ▸ rfl)) away
  write s key value room := ⟨_, if_neg room, rfl, rfl⟩
  full s key value noRoom := if_pos noRoom
  clear _ := ⟨rfl, rfl⟩

end Shelf

end PayloadSchema
