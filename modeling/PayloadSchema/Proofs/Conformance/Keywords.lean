import PayloadSchema.Proofs.Conformance.Faults
import PayloadSchema.Proofs.Tree.Lineage

/-! The keywords of a tree's schema. Each applies on its own and says nothing of values it is not meant for, and together
they find in every document the faults that going through tree and document finds, in the same order. -/
namespace PayloadSchema

theorem Violation.under_under (outer inner : List Spot) (x : Violation) :
    (x.under inner).under outer = x.under (outer ++ inner) := by
  simp only [under, List.append_assoc]

namespace Branch
open Schema

variable {V : Validator} {place : List Spot} {v : Json} {members : List (Text × Json)} {n : Node} {bs : List Branch}

/-- In every value, the keywords of a branch find what the direct check does. There may be others beside them that say
nothing of members. -/
def Agrees (V : Validator) (b : Branch) : Prop :=
  ∀ ks, propertyNames ks = propertyNames (keywordsOf b) → ∀ place v,
    ((keywordsOf b).flatMap fun k => (V.finds ks k v).map (·.under place)) = faults place v b

theorem membersOf_names (bs : List Branch) : (membersOf bs).map Prod.fst = bs.map (·.name) := by
  induction bs with
  | nil => rfl
  | cons b rest ih => rw [membersOf, List.map_cons, List.map_cons, ih]

/-- Where the children have different names, each keeps its own schema. -/
theorem ofPairs_membersOf (distinct : (bs.map (·.name)).Nodup) :
    Assoc.ofPairs (membersOf bs) = membersOf bs :=
  Assoc.update_of_fresh (by rwa [List.nil_append, membersOf_names])

theorem map_breachIf (condition : Bool) (breach : Breach) :
    (breachIf condition breach).map (·.under place) = if condition then [⟨place, breach⟩] else [] := by
  cases condition
  · rfl
  · simp only [breachIf, if_true, List.map_singleton, Violation.under, List.append_nil]

theorem map_part {s : Schema} (spot : Spot) :
    ((V.errors s v).map (·.under [spot])).map (·.under place) = (V.errors s v).map (·.under (place ++ [spot])) := by
  simp only [List.map_map, Function.comp_def, Violation.under_under]

section Lawful

variable (lawful : V.Lawful)
include lawful

theorem errors_under (ks : List Keyword) (place : List Spot) : (V.errors (.mk ks) v).map (·.under place) =
    ks.flatMap fun k => (V.finds ks k v).map (·.under place) := by
  rw [lawful.schema, List.map_flatMap]

theorem Agrees.errors {b : Branch} (agree : Agrees V b) (place : List Spot) (v : Json) :
    (V.errors (.mk (keywordsOf b)) v).map (·.under place) = faults place v b := by
  rw [errors_under lawful, agree _ rfl]

variable (ks : List Keyword)

theorem finds_nothing {others : List Keyword} (unmeant : ∀ k ∈ others, k.concerns v = false) :
    (others.flatMap fun k => (V.finds ks k v).map (·.under place)) = [] := by
  refine List.flatMap_eq_nil_iff.mpr fun k listed => ?_
  rw [lawful.unmeant (unmeant k listed), List.map_nil]

theorem finds_type (t : ValueType) : (V.finds ks (.type t) v).map (·.under place) =
    if t.admits v then [] else [⟨place, .type v t⟩] := by
  rw [lawful.type, map_breachIf]
  cases t.admits v <;> rfl

theorem finds_properties (agree : ∀ b ∈ bs, Agrees V b) :
    (V.finds ks (.properties (membersOf bs)) (.obj members)).map (·.under place) = memberFaults place members bs := by
  rw [lawful.properties]
  induction bs with
  | nil => rfl
  | cons b rest ih =>
    obtain ⟨first, others⟩ := List.forall_mem_cons.mp agree
    rw [membersOf, List.flatMap_cons, List.map_append, memberFaults, ih others]
    cases Assoc.get? members b.name with
    | none => rfl
    | some inner =>
      rw [Option.toList_some, List.flatMap_singleton]
      exact congrArg (· ++ _) ((map_part _).trans (first.errors lawful (place ++ [.member b.name]) inner))

theorem finds_required (names : List Text) :
    (V.finds ks (.required names) (.obj members)).map (·.under place) = absences place members names := by
  have absent : ∀ name, (!Assoc.contains members name) = decide (name ∉ members.map Prod.fst) := fun name => by
    rw [Bool.eq_iff_iff]
    simp [Assoc.contains, ← Assoc.isSome_get?_iff]
  simp only [lawful.required, absences, absent, List.map_map, Function.comp_def, Violation.under, List.append_nil]

theorem finds_closed : (V.finds ks .closed (.obj members)).map (·.under place) =
    strays place members (propertyNames ks) := by
  have stray : ∀ name, (!(propertyNames ks).contains name) = decide (name ∉ propertyNames ks) := fun name => by simp
  rw [lawful.closed, map_breachIf]
  simp only [strays, unexpectedMembers, stray]
  generalize (members.map Prod.fst).filter (fun name => decide (name ∉ propertyNames ks)) = extra
  cases extra with
  | nil => simp
  | cons name rest =>
    have kept : ((name :: rest).mergeSort Text.precedes).isEmpty = false := by
      rw [← Bool.not_eq_true, List.isEmpty_iff]
      intro none
      have size := (List.mergeSort_perm (name :: rest) Text.precedes).length_eq
      simp [none] at size
    simp [kept]

omit ks in
theorem object_agrees (kind : n.kind = .object) (distinct : (bs.map (·.name)).Nodup)
    (agree : ∀ b ∈ bs, Agrees V b) : Agrees V (.mk n bs) := by
  intro ks same place v
  have keywords : keywordsOf (.mk n bs) =
      [.type .object, .properties (membersOf bs), .required (bs.map (·.name)), .closed] := by
    simp only [keywordsOf, kind, ofPairs_membersOf distinct]
  have known : propertyNames ks = bs.map (·.name) := by
    rw [same, keywords]
    simp only [propertyNames, List.flatMap_cons, List.flatMap_nil, List.nil_append, List.append_nil, membersOf_names]
  rw [keywords, List.flatMap_cons, finds_type lawful]
  cases v with
  | obj members =>
    simp only [List.flatMap_cons, List.flatMap_nil, List.append_nil, finds_properties lawful _ agree,
      finds_required lawful, finds_closed lawful, known, faults, kind, ValueType.admits, if_true, List.nil_append,
      List.append_assoc]
  | null | bool _ | int _ | real _ | str _ | arr _ =>
    -- of what is no object, only the keyword for the type says anything
    rw [finds_nothing lawful _ (by simp [Keyword.concerns])]
    simp [faults, kind, ValueType.admits]

theorem finds_elements {items : List Json} (agree : ∀ b ∈ bs, Agrees V b) :
    ((elementOf bs).flatMap fun k => (V.finds ks k (.arr items)).map (·.under place)) = itemFaults place items bs := by
  cases bs with
  | nil => rfl
  | cons b rest =>
    rw [elementOf, List.flatMap_singleton, lawful.items, List.map_flatMap, itemFaults]
    refine List.flatMap_congr fun entry _ => ?_
    rw [map_part, (agree b List.mem_cons_self).errors lawful]

omit ks in
theorem array_agrees (kind : n.kind = .array) (agree : ∀ b ∈ bs, Agrees V b) : Agrees V (.mk n bs) := by
  intro ks _ place v
  have keywords : keywordsOf (.mk n bs) =
      .type .array :: (elementOf bs ++ [.minItems n.size, .maxItems n.size]) := by
    simp only [keywordsOf, kind, List.cons_append]
  rw [keywords, List.flatMap_cons, finds_type lawful]
  cases v with
  | arr items =>
    rw [List.flatMap_append, finds_elements lawful _ agree, List.flatMap_cons, List.flatMap_singleton, lawful.minItems,
      lawful.maxItems, map_breachIf, map_breachIf]
    simp only [faults, kind, miscount]
    by_cases short : (items.length : Int) < n.size
    · simp [ValueType.admits, short, Int.lt_asymm short]
    · by_cases long : n.size < items.length <;> simp [ValueType.admits, short, long]
  | null | bool _ | int _ | real _ | str _ | obj _ =>
    rw [finds_nothing lawful _ (by cases bs <;> simp [elementOf, Keyword.concerns])]
    simp [faults, kind, ValueType.admits]

theorem whole_agrees (bits : Nat) :
    ((wholeNumber bits).flatMap fun k => (V.finds ks k v).map (·.under place)) = wholeFaults bits place v := by
  have power : ((Nat.pow 2 (bits - 1) : Nat) : Int) = 2 ^ (bits - 1) := by simp
  have ordered : (-2 ^ (bits - 1) : Int) ≤ 2 ^ (bits - 1) - 1 := by
    have positive := Int.pow_pos (n := 2) (m := bits - 1) (by decide)
    omega
  simp only [wholeNumber, List.flatMap_cons, List.flatMap_nil, finds_type lawful, lawful.minimum, lawful.maximum,
    map_breachIf, wholeFaults, power, Json.admits_integer_iff, Json.isBelow_iff, Json.isAbove_iff, List.append_nil]
  by_cases under : v.Below (-2 ^ (bits - 1))
  · simp only [under, Json.not_below_and_above ordered under, if_true, if_false, List.append_nil]
  · simp only [under, if_false, List.nil_append]

theorem finds_unit (unit : Text) :
    ((ofUnit unit).flatMap fun k => (V.finds ks k v).map (·.under place)) = [] := by
  refine finds_nothing lawful ks fun k listed => ?_
  unfold ofUnit at listed
  split at listed
  · cases listed
  · rw [List.mem_singleton.mp listed]
    rfl

omit ks in
theorem leaf_agrees (primitive : n.kind.isPrimitive) : Agrees V (.mk n bs) := by
  intro ks _ place v
  have keywords : keywordsOf (.mk n bs) = ofPrimitive n.kind ++ ofUnit n.unit := by
    cases kind : n.kind with
    | object | array => simp [kind, NodeType.isPrimitive] at primitive
    | string | double | int | long | decimal128 | boolean | date | binary => simp only [keywordsOf, kind]
  rw [keywords, List.flatMap_append, finds_unit lawful, List.append_nil]
  cases kind : n.kind with
  | object | array => simp [kind, NodeType.isPrimitive] at primitive
  | int | long => simp only [ofPrimitive, whole_agrees lawful, faults, kind, leafFaults]
  | string | double | decimal128 | boolean | date | binary =>
    rw [ofPrimitive, List.flatMap_cons, finds_type lawful, finds_nothing lawful _ (by simp [Keyword.concerns])]
    simp only [faults, kind, leafFaults, List.append_nil]
    cases v <;> rfl

omit lawful ks in
theorem child_names (distinct : (Branch.mk n bs).Distinct) : (bs.map (·.name)).Nodup := by
  have roots := (roots_sublist (.mk n bs)).map (·.name)
  rw [List.map_map] at roots
  exact (distinct_beneath distinct).sublist roots

omit ks in
/-- The keywords of a tree's branch find in a value what going through both finds. -/
theorem agrees (b : Branch) (distinct : b.Distinct) : Agrees V b := by
  induction b using Branch.induction with
  | mk n bs ih =>
    have below : ∀ b ∈ bs, Agrees V b := fun b member => ih b member (distinct_child distinct member)
    cases kind : n.kind with
    | object => exact object_agrees lawful kind (child_names distinct) below
    | array => exact array_agrees lawful kind below
    | string | double | int | long | decimal128 | boolean | date | binary =>
      exact leaf_agrees lawful (by rw [kind]; rfl)

end Lawful

end Branch

namespace SchemaTree
open Arena Descriptor Branch

variable {V : Validator} {t : SchemaTree}

/-- Whether a value is a message around a document: an object whose only member is called `value`, where the root has
no child of that name. -/
def IsMessage (t : SchemaTree) (v : Json) : Prop :=
  (∃ members, v = .obj members ∧ members.map Prod.fst = (["value"] : List Text)) ∧
    ∀ m ∈ t.nodes, m.parentIn t.nodes = .ok (some t.root) → m.name ≠ "value"

theorem not_message {members : List (Text × Json)} (other : members.map Prod.fst ≠ (["value"] : List Text)) :
    ¬ t.IsMessage (.obj members) := by
  rintro ⟨⟨_, same, keys⟩, _⟩
  cases same
  exact other keys

namespace Built

variable (built : t.Built)
include built

theorem trunk_names : t.trunk.children.map (·.name) = (childNodes t.nodes t.root).map (·.name) := by
  rw [built.childNames built.root_member, ← built.branchNames built.root_member, trunk,
    built.branch_eq built.root_member]
  rfl

theorem unwrap_message {v : Json} (message : t.IsMessage v) : v = .obj [("value", t.unwrap v)] := by
  obtain ⟨⟨members, rfl, keys⟩, free⟩ := message
  obtain ⟨⟨name, inner⟩, rfl, same⟩ := List.map_eq_singleton_iff.mp keys
  obtain rfl : name = "value" := same
  have unnamed : ("value" : Text) ∉ t.trunk.children.map (·.name) := by
    rw [built.trunk_names]
    intro listed
    obtain ⟨m, child, same⟩ := List.mem_map.mp listed
    obtain ⟨known, parent⟩ := (built.mem_childNodes built.root_member).mp child
    exact free m known parent same
  simp [unwrap, unnamed]

theorem unwrap_document {v : Json} (document : ¬ t.IsMessage v) : t.unwrap v = v := by
  unfold unwrap
  split
  · rename_i name inner
    rw [if_neg]
    intro wrapped
    obtain ⟨rfl, free⟩ : name = "value" ∧ ("value" : Text) ∉ t.trunk.children.map (·.name) := by simpa using wrapped
    refine document ⟨⟨_, rfl, rfl⟩, fun m known parent same => free ?_⟩
    rw [built.trunk_names, ← same]
    exact List.mem_map_of_mem ((built.mem_childNodes built.root_member).mpr ⟨known, parent⟩)
  · rfl

theorem check_eq (lawful : V.Lawful) (v : Json) : t.check V v = faults [] (t.unwrap v) t.trunk := by
  have agree := agrees lawful t.trunk (built.branch_distinct built.root_member)
  have whole : (t.check V v).map (·.under []) = t.check V v := List.map_id _
  rw [← whole, check, schema, errors_under lawful, List.flatMap_cons, List.flatMap_cons,
    agree (.dialect Schema.dialectUri :: .title t.root.name :: Schema.keywordsOf t.trunk) rfl]
  -- the dialect and the title say nothing of any document
  rw [lawful.unmeant (k := .dialect _) rfl, lawful.unmeant (k := .title _) rfl]
  rfl

theorem check_eq_nil_iff (lawful : V.Lawful) (v : Json) : t.check V v = [] ↔ Conforms (t.unwrap v) t.trunk := by
  rw [built.check_eq lawful, faults_eq_nil_iff]

theorem check_document_iff (lawful : V.Lawful) {d : Json} (document : ¬ t.IsMessage d) :
    t.check V d = [] ↔ Conforms d t.trunk := by
  rw [built.check_eq_nil_iff lawful, built.unwrap_document document]

end Built

end SchemaTree

end PayloadSchema
