import PayloadSchema.Proofs.Json.Tokens

/-! Reading what was written. A reader takes the text of a value token by token and comes to the value itself, whatever
stands around the text, as long as it may open as many containers as the value has inside each other. -/
namespace PayloadSchema.Json
open Token

/-- Whether a value is read back from its text by a reader that may open so many containers inside each other. -/
inductive Legible : (room : Nat) → Json → Prop where
  | token {room : Nat} {v : Json} (single : IsToken v) : Legible room v
  | arr {room : Nat} {items : List Json} (each : ∀ v ∈ items, Legible room v) : Legible (room + 1) (arr items)
  | obj {room : Nat} {members : List (Text × Json)} (distinct : (members.map Prod.fst).Nodup)
      (unsplit : ∀ entry ∈ members, entry.1.Unsplit) (each : ∀ entry ∈ members, Legible room entry.2) :
    Legible (room + 1) (obj members)

/-- How far a text has been read. -/
structure Progress where
  frames : List Frame
  stage : Stage
  text : Text

/-- Whether going on from one point comes to the same as going on from another. -/
def Leads (limit : Option Nat) (before after : Progress) : Prop :=
  ∀ steps, before.text.length ≤ steps → ∃ left, after.text.length ≤ left ∧
    run limit before.frames before.stage (scanSteps steps before.text) =
      run limit after.frames after.stage (scanSteps left after.text)

variable {limit : Option Nat} {frames outer : List Frame} {stage : Stage} {text rest : Text}

theorem Leads.trans {first second third : Progress} (one : Leads limit first second)
    (other : Leads limit second third) : Leads limit first third := by
  intro steps enough
  obtain ⟨left, still, same⟩ := one steps enough
  obtain ⟨last, more, also⟩ := other left still
  exact ⟨last, more, same.trans also⟩

theorem leads_space {c : CodePoint} (space : isSpace c = true) :
    Leads limit ⟨frames, stage, c :: text⟩ ⟨frames, stage, text⟩ := by
  intro steps enough
  refine ⟨steps, Nat.le_of_succ_le enough, ?_⟩
  obtain ⟨steps, rfl⟩ := Nat.exists_eq_add_one.mpr (Nat.lt_of_lt_of_le (Nat.succ_pos _) enough)
  simp only [scanSteps, List.dropWhile_cons_of_pos space]

theorem leads_token {c : CodePoint} {after : List Frame} {next : Stage} {token : Token} (visible : isSpace c = false)
    (read : Token.next c text = some (token, rest)) (shorter : rest.length ≤ text.length)
    (taken : advance limit frames stage token = .ok (after, next)) :
    Leads limit ⟨frames, stage, c :: text⟩ ⟨after, next, rest⟩ := by
  intro steps enough
  obtain ⟨steps, rfl⟩ := Nat.exists_eq_add_one.mpr (Nat.lt_of_lt_of_le (Nat.succ_pos _) enough)
  refine ⟨steps, Nat.le_trans shorter (Nat.le_of_succ_le_succ enough), ?_⟩
  have kept : ¬ isSpace c = true := by rw [visible]; exact Bool.false_ne_true
  simp only [scanSteps, List.dropWhile_cons_of_neg kept, read, run, taken]

/-- One character that is a token of its own. -/
theorem leads_mark {c : CodePoint} {after : List Frame} {next : Stage} {token : Token} (visible : isSpace c = false)
    (read : Token.next c text = some (token, text)) (taken : advance limit frames stage token = .ok (after, next)) :
    Leads limit ⟨frames, stage, c :: text⟩ ⟨after, next, text⟩ :=
  leads_token visible read (Nat.le_refl _) taken

theorem leads_name {s : Text} (unsplit : s.Unsplit) {after : List Frame} {next : Stage}
    (taken : advance limit frames stage (.text s) = .ok (after, next)) :
    Leads limit ⟨frames, stage, writeString s ++ rest⟩ ⟨after, next, rest⟩ := by
  have text : writeString s ++ rest = .char '"' :: (s.flatMap writeChar ++ .char '"' :: rest) := by simp [writeString]
  rw [text]
  refine leads_token rfl (next_string unsplit rest) ?_ taken
  simp only [List.length_append, List.length_cons]
  omega

/-- Reading goes over the text of a value to a value, wherever the text stands before a delimiter. -/
def ReadsAs (limit : Option Nat) (frames : List Frame) (v w : Json) : Prop :=
  ∀ closable rest, Delimited rest →
    Leads limit ⟨frames, .value closable, v.write ++ rest⟩ ⟨frames, .done w, rest⟩

/-- Reading goes over the text of a value to the value itself. -/
abbrev Reads (limit : Option Nat) (frames : List Frame) (v : Json) : Prop := ReadsAs limit frames v v

theorem spelt_reads {v w : Json} (spells : Spells v.write w) : ReadsAs limit frames v w := by
  obtain ⟨c, cs, token, text, visible, read, means⟩ := spells
  intro closable rest delimited
  rw [text, List.cons_append]
  refine leads_token visible (read rest delimited) ?_ (means limit frames closable)
  rw [List.length_append]
  exact Nat.le_add_left _ _

theorem delimited_mark {c : CodePoint} (mark : c = ',' ∨ c = ']' ∨ c = '\x7d') (rest : Text) :
    Delimited (c :: rest) := by
  rintro _ ⟨⟩
  exact mark

/-- The items of an array are read one behind the other. -/
theorem items_lead {items : List Json} {f : Json → Json} (some : items ≠ []) (before : List Json) (closable : Bool)
    (each : ∀ v ∈ items, ∀ before, ReadsAs limit (.array before :: outer) v (f v)) :
    Leads limit ⟨.array before :: outer, .value closable, writeItems items ++ .char ']' :: rest⟩
      ⟨outer, .done (.arr (before.reverse ++ items.map f)), rest⟩ := by
  induction items generalizing before closable with
  | nil => exact absurd rfl some
  | cons v items ih =>
    obtain ⟨first, others⟩ := List.forall_mem_cons.mp each
    cases items with
    | nil =>
      refine (first before closable (.char ']' :: rest) (delimited_mark (.inr (.inl rfl)) rest)).trans ?_
      refine leads_mark rfl rfl ?_
      rw [List.map_cons, List.map_nil, ← List.reverse_cons]
      rfl
    | cons w items =>
      have text : writeItems (v :: w :: items) ++ .char ']' :: rest =
          v.write ++ .char ',' :: .char ' ' :: (writeItems (w :: items) ++ .char ']' :: rest) := by simp [writeItems]
      rw [text]
      refine (first before closable _ (delimited_mark (.inl rfl) _)).trans ?_
      refine (leads_mark rfl rfl rfl).trans ((leads_space rfl).trans ?_)
      have behind := ih (List.cons_ne_nil _ _) (f v :: before) false others
      rwa [List.reverse_cons, List.append_assoc] at behind

/-- The members of an object are read one behind the other, and stay apart if their names differ. -/
theorem members_lead {members : List (Text × Json)} {f : Json → Json} (some : members ≠ [])
    (before : List (Text × Json)) (closable : Bool) (distinct : ((before ++ members).map Prod.fst).Nodup)
    (unsplit : ∀ entry ∈ members, entry.1.Unsplit)
    (each : ∀ entry ∈ members, ∀ before key, ReadsAs limit (.object before key :: outer) entry.2 (f entry.2)) :
    Leads limit ⟨outer, .key before closable, writeMembers members ++ .char '\x7d' :: rest⟩
      ⟨outer, .done (.obj (before ++ members.map fun entry => (entry.1, f entry.2))), rest⟩ := by
  induction members generalizing before closable with
  | nil => exact absurd rfl some
  | cons entry members ih =>
    obtain ⟨name, v⟩ := entry
    obtain ⟨first, others⟩ := List.forall_mem_cons.mp each
    obtain ⟨legible, behind⟩ := List.forall_mem_cons.mp unsplit
    have put : Assoc.put before name (f v) = before ++ [(name, f v)] := by
      refine Assoc.put_of_fresh (fun known => ?_) (f v)
      rw [List.map_append, List.nodup_append] at distinct
      exact distinct.2.2 name known name List.mem_cons_self rfl
    have named (tail : Text) : Leads limit
        ⟨outer, .key before closable, writeString name ++ .char ':' :: .char ' ' :: tail⟩
        ⟨.object before name :: outer, .value false, tail⟩ := by
      refine (leads_name legible rfl).trans ?_
      exact (leads_mark rfl rfl rfl).trans (leads_space rfl)
    cases members with
    | nil =>
      have text : writeMembers [(name, v)] ++ .char '\x7d' :: rest =
          writeString name ++ .char ':' :: .char ' ' :: (v.write ++ .char '\x7d' :: rest) := by simp [writeMembers]
      rw [text]
      refine (named _).trans ((first before name false _ (delimited_mark (.inr (.inr rfl)) rest)).trans ?_)
      refine leads_mark rfl rfl ?_
      rw [List.map_cons, List.map_nil, ← put]
      rfl
    | cons next members =>
      have text : writeMembers ((name, v) :: next :: members) ++ .char '\x7d' :: rest =
          writeString name ++ .char ':' :: .char ' ' ::
            (v.write ++ .char ',' :: .char ' ' :: (writeMembers (next :: members) ++ .char '\x7d' :: rest)) := by
        simp [writeMembers]
      have moved (more : List (Text × Json)) : before ++ (name, f v) :: more = before ++ [(name, f v)] ++ more := by
        simp
      have apart : ((before ++ [(name, f v)] ++ next :: members).map Prod.fst).Nodup := by
        simpa using distinct
      rw [text, List.map_cons, moved]
      refine (named _).trans ((first before name false _ (delimited_mark (.inl rfl) _)).trans ?_)
      refine Leads.trans (leads_mark rfl rfl rfl) ((leads_space rfl).trans ?_)
      rw [put]
      exact ih (List.cons_ne_nil _ _) _ false apart behind others

theorem admits_of_room {room opened : Nat} (enough : ∀ most ∈ limit, opened + (room + 1) ≤ most) :
    admits limit opened = true := by
  cases limit with
  | none => rfl
  | some most => exact decide_eq_true (Nat.lt_of_lt_of_le (by omega) (enough most rfl))

theorem room_inside {room : Nat} (enough : ∀ most ∈ limit, frames.length + (room + 1) ≤ most) (frame : Frame) :
    ∀ most ∈ limit, (frame :: frames).length + room ≤ most := by
  intro most limited
  have := enough most limited
  rw [List.length_cons]
  omega

/-- An array is read where there is room for it, if its items are read inside it. -/
theorem array_reads {items : List Json} {f : Json → Json} {room : Nat}
    (enough : ∀ most ∈ limit, frames.length + (room + 1) ≤ most)
    (each : ∀ v ∈ items, ∀ before, ReadsAs limit (.array before :: frames) v (f v)) :
    ReadsAs limit frames (.arr items) (.arr (items.map f)) := by
  intro closable rest delimited
  have text : (Json.arr items).write ++ rest = .char '[' :: (writeItems items ++ .char ']' :: rest) := by simp [write]
  have opened : advance limit frames (.value closable) .openArray = .ok (.array [] :: frames, .value true) :=
    if_pos (admits_of_room enough)
  rw [text]
  refine (leads_mark rfl rfl opened).trans ?_
  by_cases none : items = []
  · subst none
    exact leads_mark rfl rfl rfl
  · exact items_lead none [] true each

/-- An object is read where there is room for it, if its values are read inside it. -/
theorem object_reads {members : List (Text × Json)} {f : Json → Json} {room : Nat}
    (enough : ∀ most ∈ limit, frames.length + (room + 1) ≤ most) (distinct : (members.map Prod.fst).Nodup)
    (unsplit : ∀ entry ∈ members, entry.1.Unsplit)
    (each : ∀ entry ∈ members, ∀ before key, ReadsAs limit (.object before key :: frames) entry.2 (f entry.2)) :
    ReadsAs limit frames (.obj members) (.obj (members.map fun entry => (entry.1, f entry.2))) := by
  intro closable rest delimited
  have text : (Json.obj members).write ++ rest = .char '\x7b' :: (writeMembers members ++ .char '\x7d' :: rest) := by
    simp [write]
  have opened : advance limit frames (.value closable) .openObject = .ok (frames, .key [] true) :=
    if_pos (admits_of_room enough)
  rw [text]
  refine (leads_mark rfl rfl opened).trans ?_
  by_cases none : members = []
  · subst none
    exact leads_mark rfl rfl rfl
  · exact members_lead none [] true distinct unsplit each

/-- A legible value is read back wherever there is room for the containers in it. -/
theorem legible_reads {room : Nat} {v : Json} (legible : Legible room v) {frames : List Frame}
    (enough : ∀ most ∈ limit, frames.length + room ≤ most) : Reads limit frames v := by
  induction legible generalizing frames with
  | token single => exact spelt_reads (isToken_iff_spells.mp single)
  | arr _ ih =>
    have read := array_reads (f := id) enough fun v member before => ih v member (room_inside enough _)
    rwa [List.map_id] at read
  | obj distinct unsplit _ ih =>
    have read := object_reads (f := id) enough distinct unsplit fun entry member before key =>
      ih entry member (room_inside enough _)
    rwa [show (fun entry : Text × Json => (entry.1, id entry.2)) = id from rfl, List.map_id] at read

/-- Where nothing is open yet, what is read of the text of a value is all there is. -/
theorem read_of_readsAs {v w : Json} (reads : ReadsAs limit [] v w) : read limit v.write = .ok w := by
  have leads := reads false [] fun _ none => nomatch none
  rw [List.append_nil] at leads
  obtain ⟨left, _, same⟩ := leads v.write.length (Nat.le_refl _)
  rw [read, scan, same]
  cases left <;> rfl

/-- Reading the text of a legible value gives the value back, as long as the reader follows its nesting. -/
theorem read_write {room : Nat} {v : Json} (legible : Legible room v) (enough : ∀ most ∈ limit, room ≤ most) :
    read limit v.write = .ok v :=
  read_of_readsAs (legible_reads legible (by simpa using enough))

end PayloadSchema.Json
