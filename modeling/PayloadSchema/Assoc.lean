/-!
Keyed lists: entries in the order in which their keys first came, at most one for each key. `put` gives a new
key a place at the end and changes the value of a known key where it stands, so distinct keys stay distinct
and no entry ever moves.
-/
namespace PayloadSchema.Assoc

variable {κ α β : Type} [DecidableEq κ]

/-- The value of a key. -/
def get? (entries : List (κ × α)) (key : κ) : Option α :=
  match entries with
  | [] => none
  | (k, value) :: rest => if k = key then some value else get? rest key

def contains (entries : List (κ × α)) (key : κ) : Bool := (get? entries key).isSome

/-- Gives a key a value. -/
def put (entries : List (κ × α)) (key : κ) (value : α) : List (κ × α) :=
  match entries with
  | [] => [(key, value)]
  | (k, old) :: rest => if k = key then (k, value) :: rest else (k, old) :: put rest key value

/-- Puts the entries of a second list after another, from the first on. -/
def update (entries more : List (κ × α)) : List (κ × α) :=
  more.foldl (fun done entry => put done entry.1 entry.2) entries

/-- The keyed list that puts pairs one after another. -/
def ofPairs (pairs : List (κ × α)) : List (κ × α) := update [] pairs

theorem get?_put (entries : List (κ × α)) (key other : κ) (value : α) :
    get? (put entries key value) other = if key = other then some value else get? entries other := by
  induction entries with
  | nil => simp [put, get?]
  | cons entry rest ih =>
    obtain ⟨k, old⟩ := entry
    by_cases same : k = key
    · subst same; by_cases hit : k = other <;> simp [put, get?, hit]
    · by_cases hit : k = other
      · subst hit; simp [put, get?, same, Ne.symm same]
      · simp [put, get?, same, hit, ih]

theorem isSome_get?_iff {entries : List (κ × α)} {key : κ} :
    (get? entries key).isSome ↔ key ∈ entries.map Prod.fst := by
  induction entries with
  | nil => simp [get?]
  | cons entry rest ih =>
    obtain ⟨k, value⟩ := entry
    by_cases same : k = key
    · simp [get?, same]
    · simp [get?, same, ih, Ne.symm same]

/-- A known key keeps its place, a new one is last. -/
theorem keys_put (entries : List (κ × α)) (key : κ) (value : α) :
    (put entries key value).map Prod.fst =
      if key ∈ entries.map Prod.fst then entries.map Prod.fst else entries.map Prod.fst ++ [key] := by
  induction entries with
  | nil => simp [put]
  | cons entry rest ih =>
    obtain ⟨k, old⟩ := entry
    by_cases same : k = key
    · subst same; simp [put]
    · have apart : key ≠ k := fun hit => same hit.symm
      by_cases known : key ∈ rest.map Prod.fst
      · rw [if_pos known] at ih
        rw [List.map_cons, if_pos (List.mem_cons_of_mem _ known)]
        simp only [put, same, if_false, List.map_cons, ih]
      · rw [if_neg known] at ih
        rw [List.map_cons, if_neg (List.not_mem_cons_of_ne_of_not_mem apart known)]
        simp only [put, same, if_false, List.map_cons, ih, List.cons_append]

theorem put_nodup (entries : List (κ × α)) (key : κ) (value : α)
    (distinct : (entries.map Prod.fst).Nodup) : ((put entries key value).map Prod.fst).Nodup := by
  rw [keys_put]
  split
  · exact distinct
  · rename_i fresh
    simp only [List.nodup_append, distinct, List.nodup_cons, List.not_mem_nil, not_false_eq_true,
      List.nodup_nil, and_self, List.mem_cons, or_false, true_and]
    intro k member _ same equal
    exact fresh (same ▸ equal ▸ member)

/-- Where keys are distinct, the value of a key is that of its only entry. -/
theorem get?_eq_some_iff {entries : List (κ × α)} (distinct : (entries.map Prod.fst).Nodup) {key : κ} {value : α} :
    get? entries key = some value ↔ (key, value) ∈ entries := by
  induction entries with
  | nil => simp [get?]
  | cons entry rest ih =>
    obtain ⟨k, old⟩ := entry
    obtain ⟨fresh, others⟩ := List.nodup_cons.mp distinct
    by_cases same : k = key
    · subst same
      have absent : (k, value) ∉ rest := fun member => fresh (List.mem_map.mpr ⟨_, member, rfl⟩)
      simp [get?, absent, eq_comm]
    · simp [get?, same, ih others, Ne.symm same]

theorem put_of_fresh {entries : List (κ × α)} {key : κ} (fresh : key ∉ entries.map Prod.fst) (value : α) :
    put entries key value = entries ++ [(key, value)] := by
  induction entries with
  | nil => rfl
  | cons entry rest ih =>
    obtain ⟨k, old⟩ := entry
    rw [List.map_cons, List.mem_cons, not_or] at fresh
    rw [put, if_neg (Ne.symm fresh.1), ih fresh.2, List.cons_append]

/-- Entries whose keys are all new are put behind the others. -/
theorem update_of_fresh {entries more : List (κ × α)} (distinct : ((entries ++ more).map Prod.fst).Nodup) :
    update entries more = entries ++ more := by
  induction more generalizing entries with
  | nil => simp [update]
  | cons entry rest ih =>
    have moved : entries ++ entry :: rest = entries ++ [entry] ++ rest := by simp
    have fresh : entry.1 ∉ entries.map Prod.fst := by
      simp only [List.map_append, List.map_cons, List.nodup_append] at distinct
      exact fun known => distinct.2.2 _ known _ List.mem_cons_self rfl
    rw [moved] at distinct ⊢
    rw [← ih distinct, ← put_of_fresh fresh entry.2]
    rfl

/-- Pairs with different keys are a keyed list as they stand. -/
theorem ofPairs_of_distinct {pairs : List (κ × α)} (distinct : (pairs.map Prod.fst).Nodup) : ofPairs pairs = pairs :=
  update_of_fresh (by rwa [List.nil_append])

theorem foldl_update_of_fresh {entries : List (κ × α)} {more : List (List (κ × α))}
    (distinct : ((entries ++ more.flatten).map Prod.fst).Nodup) :
    more.foldl update entries = entries ++ more.flatten := by
  induction more generalizing entries with
  | nil => simp
  | cons first rest ih =>
    rw [List.flatten_cons, ← List.append_assoc] at distinct ⊢
    have front : ((entries ++ first).map Prod.fst).Nodup := by
      rw [List.map_append] at distinct
      exact (List.nodup_append.mp distinct).1
    rw [List.foldl_cons, update_of_fresh front, ih distinct]

/-- A new value takes the place of the old one. -/
theorem put_values {entries : List (κ × α)} {key : κ} {old : α} (known : get? entries key = some old) (value : α) :
    (old :: (put entries key value).map Prod.snd).Perm (value :: entries.map Prod.snd) := by
  induction entries with
  | nil => simp [get?] at known
  | cons entry rest ih =>
    obtain ⟨k, first⟩ := entry
    by_cases same : k = key
    · obtain rfl : first = old := by simpa [get?, same] using known
      simp only [put, same, if_true, List.map_cons]
      exact List.Perm.swap value first _
    · have behind := ih (by simpa [get?, same] using known)
      simp only [put, same, if_false, List.map_cons]
      exact ((List.Perm.swap first old _).trans (behind.cons first)).trans (List.Perm.swap value first _)

theorem mem_put {entries : List (κ × α)} {key : κ} {value : α} {entry : κ × α}
    (member : entry ∈ put entries key value) : entry = (key, value) ∨ entry ∈ entries := by
  induction entries with
  | nil => exact .inl (by simpa [put] using member)
  | cons first rest ih =>
    obtain ⟨k, old⟩ := first
    by_cases same : k = key
    · subst same
      simp only [put, if_true, List.mem_cons] at member ⊢
      exact member.imp_right .inr
    · simp only [put, same, if_false, List.mem_cons] at member ⊢
      rcases member with rfl | later
      · exact .inr (.inl rfl)
      · exact (ih later).imp_right .inr

end PayloadSchema.Assoc
