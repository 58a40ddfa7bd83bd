/-!
Finite sequences that are computed item by item. `toList` is the meaning of a series. A series that has not been
begun is a function: taking some of its items computes no others, and taking none computes nothing.
-/
namespace PayloadSchema

/-- A finite sequence whose rest is computed on demand. -/
inductive Series (α : Type) where
  | done
  | item (first : α) (rest : Unit → Series α)

namespace Series

variable {α : Type}

def toList : Series α → List α
  | done => []
  | item first rest => first :: toList (rest ())

/-- The first `count` items of a series that has not been begun. -/
def take : (count : Nat) → (Unit → Series α) → List α
  | 0, _ => []
  | count + 1, start =>
    match start () with
    | done => []
    | item first rest => first :: take count rest

/-- The items of one series and then those of another. -/
def append : Series α → (Unit → Series α) → Series α
  | done, more => more ()
  | item first rest, more => item first fun _ => append (rest ()) more

/-- The items of one series after another, one for each element of a list. -/
def concat {β : Type} (series : β → Series α) : List β → Series α
  | [] => done
  | b :: rest => append (series b) fun _ => concat series rest

theorem toList_append (s : Series α) (more : Unit → Series α) :
    (append s more).toList = s.toList ++ (more ()).toList := by
  induction s with
  | done => rfl
  | item first rest ih => simp [append, toList, ih]

theorem toList_concat {β : Type} (series : β → Series α) (bs : List β) :
    (concat series bs).toList = bs.flatMap fun b => (series b).toList := by
  induction bs with
  | nil => rfl
  | cons b rest ih => simp [concat, toList_append, ih]

theorem take_eq_take_toList (count : Nat) (start : Unit → Series α) :
    take count start = (start ()).toList.take count := by
  induction count generalizing start with
  | zero => simp [take]
  | succ count ih =>
    cases begun : start () with
    | done => simp [take, toList, begun]
    | item first rest => simp [take, toList, begun, ih]

end Series

end PayloadSchema
