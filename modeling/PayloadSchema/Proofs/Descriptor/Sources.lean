import Mathlib.Data.List.Forall2
import PayloadSchema.Proofs.Descriptor.Serialization
import PayloadSchema.Proofs.Number.Numerals

/-! Which sources hold descriptors. A list of objects does, alone or under `treeNodes`, when their children are lists
and their sizes can be made whole numbers, where these are given at all. Other sources are refused for the kind of a
value in them or, with a list, for what is wrong with its first item that is no descriptor. -/
namespace PayloadSchema

/-- Whether a source is refused because a value in it is of the wrong kind, not because of what is in the value. -/
def LoadError.isAboutKind : LoadError → Bool
  | noSource | noList _ | noObject _ | noChildList _ | sizeOfKind _ => true
  | undecodable | unreadable _ | sizeNotNumber | sizeInfinite | sizeMalformed _ | sizeTooLong _ => false

/-- Whether an answer is a refusal for the kind of a value. -/
def LoadError.Refuses (e : LoadError) (answer : Except LoadError (List Descriptor)) : Prop :=
  answer = .error e ∧ e.isAboutKind

/-- Whether a source stands for a value: it is the value itself, if that is no string, or a text of it. -/
inductive Source.Presents (limit : Option Nat) : Source → Json → Prop where
  | direct {v : Json} (other : ∀ s, v ≠ .str s) : Presents limit (ofJson v) v
  | text {cs : Text} {v : Json} (read : Json.read limit cs = .ok v) : Presents limit (text cs) v
  | bytes {bs : List UInt8} {cs : Text} {v : Json} (decoded : Json.decode bs = some cs)
      (read : Json.read limit cs = .ok v) : Presents limit (bytes bs) v

namespace Descriptor

/-! ### Items -/

/-- Whether a value can be made a whole number. -/
inductive Countable : Json → Prop where
  | bool (b : Bool) : Countable (.bool b)
  | int (i : Int) : Countable (.int i)
  | real (negative : Bool) (mantissa : Nat) (exponent : Int) : Countable (.real (.finite negative mantissa exponent))
  | str {s : Text} {i : Int} (denotes : Numeral.Denotes s i) : Countable (.str s)

/-- Whether a member is missing, null, or of a sort. -/
def Optional (members : List (Text × Json)) (name : Text) (Fits : Json → Prop) : Prop :=
  ∀ v, Assoc.get? members name = some v → v = .null ∨ Fits v

def IsArray (v : Json) : Prop := ∃ items, v = .arr items

/-- Whether a value is the object of a descriptor. -/
inductive Acceptable : Json → Prop where
  | obj {members : List (Text × Json)} (children : Optional members "children" IsArray)
      (size : Optional members "size" Countable) : Acceptable (.obj members)

variable {members : List (Text × Json)} {v w item : Json} {items before after : List Json} {ds : List Descriptor}
  {e : LoadError} {answer : Except LoadError (List Descriptor)} {source : Source} {limit : Option Nat}

theorem readSize_succeeds_iff : (∃ i, readSize v = .ok i) ↔ v = .null ∨ Countable v := by
  constructor
  · rintro ⟨i, read⟩
    cases v with
    | null => exact .inl rfl
    | bool b => exact .inr (.bool b)
    | int i => exact .inr (.int i)
    | real x =>
      cases x with
      | nan => cases read
      | infinite negative => cases read
      | finite negative mantissa exponent => exact .inr (.real negative mantissa exponent)
    | str s =>
      cases numeral : Numeral.read s with
      | ok i => exact .inr (.str (Numeral.read_eq_ok_iff.mp numeral))
      | error fault => cases fault <;> simp [readSize, numeral] at read
    | arr items => cases read
    | obj members => cases read
  · rintro (rfl | ⟨b | i | ⟨negative, mantissa, exponent⟩ | denotes⟩)
    · exact ⟨_, rfl⟩
    · exact ⟨_, rfl⟩
    · exact ⟨_, rfl⟩
    · exact ⟨_, rfl⟩
    · exact ⟨_, by rw [readSize, Numeral.read_eq_ok_iff.mpr denotes]⟩

theorem readChildren_succeeds_iff {found : Option Json} :
    (∃ names, readChildren found = .ok names) ↔ ∀ v ∈ found, v = .null ∨ IsArray v := by
  cases found with
  | none => exact ⟨fun _ _ none => (nomatch none), fun _ => ⟨_, rfl⟩⟩
  | some v =>
    simp only [Option.mem_some, forall_eq']
    cases v with
    | null => exact ⟨fun _ => .inl rfl, fun _ => ⟨_, rfl⟩⟩
    | arr items => exact ⟨fun _ => .inr ⟨items, rfl⟩, fun _ => ⟨_, rfl⟩⟩
    | bool _ | int _ | real _ | str _ | obj _ =>
      refine ⟨fun ⟨_, read⟩ => ?_, fun sort => ?_⟩
      · cases read
      · rcases sort with none | ⟨_, none⟩ <;> cases none

/-- The children of an object are read, then its size, and nothing else can fail. -/
theorem ofJson_obj (members : List (Text × Json)) : ∃ f : Option (List Text) → Int → Descriptor,
    ofJson (.obj members) = (readChildren (Assoc.get? members "children")).bind fun names =>
      (readSize ((Assoc.get? members "size").getD .null)).map (f names) :=
  ⟨_, rfl⟩

/-- An object is read as a descriptor exactly when it is the object of one. -/
theorem ofJson_succeeds_iff : (∃ d, ofJson v = .ok d) ↔ Acceptable v := by
  constructor
  · rintro ⟨d, read⟩
    cases v with
    | null | bool _ | int _ | real _ | str _ | arr _ => cases read
    | obj members =>
      obtain ⟨f, eq⟩ := ofJson_obj members
      rw [eq] at read
      cases children : readChildren (Assoc.get? members "children") with
      | error _ => rw [children] at read; cases read
      | ok names =>
        cases size : readSize ((Assoc.get? members "size").getD .null) with
        | error _ => rw [children, size] at read; cases read
        | ok i =>
          refine .obj (readChildren_succeeds_iff.mp ⟨names, children⟩) fun w found => ?_
          rw [found] at size
          exact readSize_succeeds_iff.mp ⟨i, size⟩
  · rintro @⟨members, children, size⟩
    obtain ⟨f, eq⟩ := ofJson_obj members
    obtain ⟨names, children⟩ := readChildren_succeeds_iff.mpr children
    have whole : (Assoc.get? members "size").getD .null = .null ∨
        Countable ((Assoc.get? members "size").getD .null) := by
      cases found : Assoc.get? members "size" with
      | none => exact .inl rfl
      | some w => exact size w found
    obtain ⟨i, size⟩ := readSize_succeeds_iff.mpr whole
    exact ⟨f names i, by rw [eq, children, size]; rfl⟩

theorem ofJson_of_other (other : ∀ members, item ≠ .obj members) : ofJson item = .error (.noObject item.kind) := by
  cases item with
  | obj members => exact absurd rfl (other members)
  | null | bool _ | int _ | real _ | str _ | arr _ => rfl

/-- The children of an item are looked at before its size. -/
theorem ofJson_of_children (found : Assoc.get? members "children" = some w) (given : w ≠ .null) (other : ¬ IsArray w) :
    ofJson (.obj members) = .error (.noChildList w.kind) := by
  obtain ⟨f, eq⟩ := ofJson_obj members
  rw [eq, found]
  cases w with
  | null => exact absurd rfl given
  | arr items => exact absurd ⟨items, rfl⟩ other
  | bool _ | int _ | real _ | str _ | obj _ => rfl

theorem ofItems_eq_ok_iff : ofItems items = .ok ds ↔ List.Forall₂ (fun item d => ofJson item = .ok d) items ds := by
  induction items generalizing ds with
  | nil => simp [ofItems, eq_comm]
  | cons item rest ih =>
    rw [List.forall₂_cons_left_iff, ofItems]
    cases first : ofJson item with
    | error e => simp [Bind.bind, Except.bind]
    | ok d =>
      cases others : ofItems rest with
      | error e => simp [← ih, others, Bind.bind, Except.bind]
      | ok found =>
        simp only [← ih, others, Bind.bind, Except.bind, Pure.pure, Except.pure, Except.ok.injEq, exists_and_left]
        simp [eq_comm]

/-- The first item that is no descriptor decides. -/
theorem ofItems_first (fit : ∀ x ∈ before, Acceptable x) (refused : ofJson item = .error e) :
    ofItems (before ++ item :: after) = .error e := by
  induction before with
  | nil => rw [List.nil_append, ofItems, refused]; rfl
  | cons x rest ih =>
    obtain ⟨d, read⟩ := ofJson_succeeds_iff.mpr (fit x List.mem_cons_self)
    rw [List.cons_append, ofItems, read, ih fun y member => fit y (List.mem_cons_of_mem _ member)]
    rfl

/-- Items are all read exactly when each is the object of a descriptor. -/
theorem ofItems_succeeds_iff : (∃ ds, ofItems items = .ok ds) ↔ ∀ item ∈ items, Acceptable item := by
  simp only [ofItems_eq_ok_iff]
  induction items with
  | nil => exact ⟨fun _ _ none => (nomatch none), fun _ => ⟨[], .nil⟩⟩
  | cons item rest ih =>
    constructor
    · rintro ⟨_, read | ⟨first, others⟩⟩
      exact List.forall_mem_cons.mpr ⟨ofJson_succeeds_iff.mp ⟨_, first⟩, ih.mp ⟨_, others⟩⟩
    · intro each
      obtain ⟨first, others⟩ := List.forall_mem_cons.mp each
      obtain ⟨d, first⟩ := ofJson_succeeds_iff.mpr first
      obtain ⟨ds, others⟩ := ih.mpr others
      exact ⟨d :: ds, .cons first others⟩

/-! ### Lists and documents -/

/-- Whether a value is a list of items or an object that holds the list under `treeNodes`. -/
inductive Lists : Json → List Json → Prop where
  | alone (items : List Json) : Lists (.arr items) items
  | document {members : List (Text × Json)} {items : List Json}
      (found : Assoc.get? members "treeNodes" = some (.arr items)) : Lists (.obj members) items

/-- Whether a value is an object that holds an object without members where its list is due. -/
def Hollow (v : Json) : Prop := ∃ members, v = .obj members ∧ Assoc.get? members "treeNodes" = some (.obj [])

theorem Lists.unique {others : List Json} (lists : Lists v items) (again : Lists v others) : items = others := by
  cases lists with
  | alone => cases again; rfl
  | document found =>
    cases again with
    | document found' => exact Json.arr.inj (Option.some.inj (found.symm.trans found'))

theorem ofDocument_lists (lists : Lists v items) : ofDocument v = ofItems items := by
  cases lists with
  | alone => rfl
  | document found => rw [ofDocument, found]; rfl

theorem ofDocument_hollow (hollow : Hollow v) : ofDocument v = .ok [] := by
  obtain ⟨members, rfl, found⟩ := hollow
  rw [ofDocument, found]
  rfl

/-- The names of an object's members are no objects, so an object is no list unless it has none. -/
theorem ofDocument_of_no_list (unlisted : ∀ items, ¬ Lists v items) (full : ¬ Hollow v) :
    ∃ e : LoadError, e.Refuses (ofDocument v) := by
  cases v with
  | null | bool _ | int _ | real _ | str _ => exact ⟨.noList _, rfl, rfl⟩
  | arr items => exact absurd (.alone items) (unlisted items)
  | obj members =>
    rw [ofDocument]
    cases found : Assoc.get? members "treeNodes" with
    | none => exact ⟨.noList .null, rfl, rfl⟩
    | some w =>
      cases w with
      | null | bool _ | int _ | real _ | str _ => exact ⟨.noList _, rfl, rfl⟩
      | arr items => exact absurd (.document found) (unlisted items)
      | obj inner =>
        cases inner with
        | nil => exact absurd ⟨members, rfl, found⟩ full
        | cons entry rest => exact ⟨.noObject .str, rfl, rfl⟩

/-! ### Sources -/

/-- What is answered to a value: descriptors for the items of its list, one for each and in their order, if every item
is the object of a descriptor. A value without a list is refused, and so is a list if the first item that is no such
object is no object at all or has something else for its list of children. -/
structure Answered (v : Json) (answer : Except LoadError (List Descriptor)) : Prop where
  accepted : (∃ ds, answer = .ok ds) ↔ ∃ items, Lists v items ∧ ∀ item ∈ items, Acceptable item
  ordered : ∀ items ds, Lists v items → answer = .ok ds → List.Forall₂ (fun item d => ofJson item = .ok d) items ds
  unlisted : (∀ items, ¬ Lists v items) → ∃ e : LoadError, e.Refuses answer
  strange : ∀ before item after, Lists v (before ++ item :: after) → (∀ x ∈ before, Acceptable x) →
    (∀ members, item ≠ .obj members) → (LoadError.noObject item.kind).Refuses answer
  childless : ∀ before (members : List (Text × Json)) w after, Lists v (before ++ .obj members :: after) →
    (∀ x ∈ before, Acceptable x) → Assoc.get? members "children" = some w → w ≠ .null → ¬ IsArray w →
    (LoadError.noChildList w.kind).Refuses answer

theorem answered_of_lists (lists : Lists v items) : Answered v (ofItems items) where
  accepted := by
    rw [ofItems_succeeds_iff]
    refine ⟨fun each => ⟨items, lists, each⟩, ?_⟩
    rintro ⟨others, again, each⟩
    rwa [lists.unique again]
  ordered others ds again answered := by
    rw [← lists.unique again]
    exact ofItems_eq_ok_iff.mp answered
  unlisted without := absurd lists (without items)
  strange before item after again fit other := by
    rw [lists.unique again]
    exact ⟨ofItems_first fit (ofJson_of_other other), rfl⟩
  childless before members w after again fit found given other := by
    rw [lists.unique again]
    exact ⟨ofItems_first fit (ofJson_of_children found given other), rfl⟩

theorem answered_of_refused (unlisted : ∀ items, ¬ Lists v items) (refused : e.Refuses answer) : Answered v answer where
  accepted := by
    obtain ⟨rfl, _⟩ := refused
    exact ⟨fun ⟨_, accepted⟩ => (nomatch accepted), fun ⟨items, lists, _⟩ => absurd lists (unlisted items)⟩
  ordered items _ lists := absurd lists (unlisted items)
  unlisted _ := ⟨e, refused⟩
  strange _ _ _ lists := absurd lists (unlisted _)
  childless _ _ _ _ lists := absurd lists (unlisted _)

theorem answered_ofDocument (full : ¬ Hollow v) : Answered v (ofDocument v) := by
  by_cases listed : ∃ items, Lists v items
  · obtain ⟨items, lists⟩ := listed
    rw [ofDocument_lists lists]
    exact answered_of_lists lists
  · have unlisted := not_exists.mp listed
    obtain ⟨e, refused⟩ := ofDocument_of_no_list unlisted full
    exact answered_of_refused unlisted refused

/-- The text of a value stands for what is read from it. -/
theorem presents_write {room : Nat} (readable : Json.Readable room v) (enough : ∀ most ∈ limit, room ≤ most) :
    (Source.text v.write).Presents limit v.reread :=
  .text (Json.read_readable readable enough)

/-- A source is answered like the value that it stands for, but that a null is refused before it is looked at. -/
theorem load_of_presents (presented : source.Presents limit v) :
    source.load limit = ofDocument v ∨ v = .null ∧ source.load limit = .error .noSource := by
  cases presented with
  | direct other =>
    cases v with
    | null => exact .inr ⟨rfl, rfl⟩
    | str s => exact absurd rfl (other s)
    | bool _ | int _ | real _ | arr _ | obj _ => exact .inl rfl
  | text read => exact .inl (load_text read)
  | bytes decoded read =>
    refine .inl ?_
    rw [Source.load, Source.document]
    simp only [decoded, read]
    rfl

/-- Sources hold descriptors exactly when they list their objects, with one exception: an object without members counts
as a list of nothing. -/
theorem load_exact (presented : source.Presents limit v) :
    (¬ Hollow v → Answered v (source.load limit)) ∧ (Hollow v → source.load limit = .ok []) := by
  rcases load_of_presents presented with answer | ⟨rfl, answer⟩
  · rw [answer]
    exact ⟨answered_ofDocument, ofDocument_hollow⟩
  · refine ⟨fun _ => answered_of_refused (fun _ lists => nomatch lists) ⟨answer, rfl⟩, ?_⟩
    rintro ⟨_, none, _⟩
    cases none

/-- A document with an object for its list lists nothing, and yet no descriptors are found in it. -/
theorem empty_object_loaded : (∀ items, ¬ Lists (.obj [("treeNodes", .obj [])]) items) ∧
    (Source.ofJson (.obj [("treeNodes", .obj [])])).load none = .ok [] := by
  refine ⟨?_, rfl⟩
  rintro items (_ | found)
  cases found

/-- Two items beside other things. The size of the first is a text of a number, and nothing is said of the second. -/
def cargo : Json :=
  .obj [("name", .null),
    ("treeNodes", .arr [.obj [("size", .str " -1_0 "), ("children", .arr [.null])], .obj [("children", .null)]])]

/-- The second item has a text for its children as well as a list for its size, and the third is none. -/
def spoilt : Json :=
  .arr [.obj [("size", .bool true)], .obj [("size", .arr []), ("children", .str "hold")], .int 3]

theorem cargo_loaded_spoilt_refused :
    (Source.text cargo.write).Presents (some 4) cargo ∧ ¬ Hollow cargo ∧
      (∃ ds, (Source.text cargo.write).load (some 4) = .ok ds ∧ ds.length = 2) ∧
      (Source.ofJson spoilt).Presents none spoilt ∧ ¬ Hollow spoilt ∧
      (LoadError.noChildList .str).Refuses ((Source.ofJson spoilt).load none) := by
  have readable : Json.Readable 4 cargo := by
    have named := Text.unsplit_ofString
    refine .obj (by decide) (List.forall_mem_cons.mpr ⟨named _, List.forall_mem_singleton.mpr (named _)⟩)
      (List.forall_mem_cons.mpr ⟨.null, List.forall_mem_singleton.mpr (.arr ?_)⟩)
    refine List.forall_mem_cons.mpr ⟨.obj (by decide) ?_ ?_, List.forall_mem_singleton.mpr (.obj (by decide) ?_ ?_)⟩
    · exact List.forall_mem_cons.mpr ⟨named _, List.forall_mem_singleton.mpr (named _)⟩
    · have names : Json.Readable 1 (.arr [.null]) := .arr (List.forall_mem_singleton.mpr .null)
      exact List.forall_mem_cons.mpr ⟨.str (named _), List.forall_mem_singleton.mpr names⟩
    · exact List.forall_mem_singleton.mpr (named _)
    · exact List.forall_mem_singleton.mpr .null
  have cargoPresented : (Source.text cargo.write).Presents (some 4) cargo := presents_write readable (by simp)
  have cargoFull : ¬ Hollow cargo := by
    rintro ⟨_, same, found⟩
    cases same
    cases found
  have cargoAnswered := (load_exact cargoPresented).1 cargoFull
  have ten : Countable (.str " -1_0 ") := .str (i := -10) (Numeral.read_eq_ok_iff.mp (by decide +kernel))
  have spoiltPresented : (Source.ofJson spoilt).Presents none spoilt := .direct fun _ same => nomatch same
  have spoiltFull : ¬ Hollow spoilt := fun ⟨_, same, _⟩ => nomatch same
  have spoiltAnswered := (load_exact spoiltPresented).1 spoiltFull
  refine ⟨cargoPresented, cargoFull, ?_, spoiltPresented, spoiltFull, ?_⟩
  · have accepted : ∃ items, Lists cargo items ∧ ∀ item ∈ items, Acceptable item := by
      refine ⟨_, .document rfl, List.forall_mem_cons.mpr ⟨.obj ?_ ?_, List.forall_mem_singleton.mpr (.obj ?_ ?_)⟩⟩
      · rintro _ ⟨⟩
        exact .inr ⟨_, rfl⟩
      · rintro _ ⟨⟩
        exact .inr ten
      · rintro _ ⟨⟩
        exact .inl rfl
      · rintro _ ⟨⟩
    obtain ⟨ds, loaded⟩ := cargoAnswered.accepted.mpr accepted
    exact ⟨ds, loaded, (cargoAnswered.ordered _ ds (.document rfl) loaded).length_eq.symm⟩
  · refine spoiltAnswered.childless [_] _ _ _ (.alone _) ?_ rfl (fun none => nomatch none) ?_
    · refine List.forall_mem_singleton.mpr (.obj ?_ ?_)
      · rintro _ ⟨⟩
      · rintro _ ⟨⟩
        exact .inr (.bool true)
    · rintro ⟨_, none⟩
      cases none

end Descriptor

end PayloadSchema
