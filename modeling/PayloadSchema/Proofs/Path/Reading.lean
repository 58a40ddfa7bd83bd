import PayloadSchema.Path.Basic

/-! Path texts can be read back. A bracket or a point begins every segment but the first, and inside a segment these
characters stand only where the reader looks for something else, so the first segment of a text can be told from what
follows it. Different paths therefore have different texts, whatever their fields are called. -/
namespace PayloadSchema

namespace Numeral

theorem valueOf_natural (n : Nat) : valueOf (natural n) = n := by
  rw [valueOf, value, natural, List.map_map, List.foldl_map]
  exact Nat.ofDigitChars_ten_toDigits

/-- The integer that a sign and ASCII digits stand for. -/
def integerOf : Text → Int
  | '-' :: digits => -(valueOf digits : Int)
  | digits => valueOf digits

theorem digit_of_mem_natural {n : Nat} {c : CodePoint} (member : c ∈ natural n) : c.isDigit := by
  obtain ⟨digit, listed, rfl⟩ := List.mem_map.mp member
  exact Nat.isDigit_of_mem_toDigits (by decide) (by decide) listed

theorem natural_ne_nil (n : Nat) : natural n ≠ [] := by
  simp [natural, Nat.toDigits_ne_nil]

theorem integerOf_natural (n : Nat) : integerOf (natural n) = n := by
  unfold integerOf
  split
  · next digits same =>
    have signed : .char '-' ∈ natural n := same ▸ List.mem_cons_self
    exact absurd (digit_of_mem_natural signed) (by decide)
  · rw [valueOf_natural]

theorem integerOf_integer (i : Int) : integerOf (integer i) = i := by
  unfold integer
  split
  · next negative =>
    rw [integerOf, valueOf_natural]
    omega
  · next positive =>
    rw [integerOf_natural]
    omega

/-- A numeral begins with its sign or with a digit, and has digits behind it. -/
theorem mem_integer {i : Int} {c : CodePoint} (member : c ∈ integer i) : c = '-' ∨ c.isDigit := by
  unfold integer at member
  split at member
  · rcases List.mem_cons.mp member with sign | digit
    · exact .inl sign
    · exact .inr (digit_of_mem_natural digit)
  · exact .inr (digit_of_mem_natural member)

theorem integer_ne_nil (i : Int) : integer i ≠ [] := by
  unfold integer
  split
  · exact List.cons_ne_nil _ _
  · exact natural_ne_nil _

end Numeral

namespace Segment

variable {s : Segment} {started : Bool} {rest : Text}

/-- Fields have names. -/
def Named : Segment → Prop
  | field name => name ≠ []
  | each | index _ => True

/-- Reads a name up to the apostrophe that closes it. -/
def unquote : Text → Option (Text × Text)
  | [] => none
  | '\'' :: rest => some ([], rest)
  | '\\' :: c :: rest => (unquote rest).map fun read => (c :: read.1, read.2)
  | c :: rest => (unquote rest).map fun read => (c :: read.1, read.2)

/-- Reads a name that stands without brackets. -/
def readPlain (text : Text) : Segment × Text :=
  (field (text.takeWhile (!isSpecial ·)), text.dropWhile (!isSpecial ·))

/-- Reads the first segment of a text. -/
def read : Text → Option (Segment × Text)
  | '[' :: '*' :: ']' :: rest => some (each, rest)
  | '[' :: '\'' :: rest => (unquote rest).map fun read => (field read.1, read.2.drop 1)
  | '[' :: rest =>
    some (index (Numeral.integerOf (rest.takeWhile (· ≠ .char ']'))), (rest.dropWhile (· ≠ .char ']')).drop 1)
  | '.' :: rest => some (readPlain rest)
  | text => some (readPlain text)

theorem unquote_escape (name rest : Text) : unquote (name.flatMap escape ++ .char '\'' :: rest) = some (name, rest) := by
  induction name with
  | nil => rfl
  | cons c name ih =>
    rw [List.flatMap_cons, escape]
    split
    · rw [List.cons_append, List.singleton_append, List.cons_append, List.cons_append, unquote, ih]
      · rfl
    · next plain =>
      rw [not_or] at plain
      rw [List.singleton_append, List.cons_append, unquote, ih]
      · rfl
      · exact plain.2
      · exact fun _ _ same _ => plain.1 same

/-- A text that goes on behind a segment goes on with a point or a bracket. -/
def Follows (rest : Text) : Prop := ∀ c ∈ rest.head?, c = '.' ∨ c = '['

theorem readPlain_append {name : Text} (plain : name.any isSpecial = false) (follows : Follows rest) :
    readPlain (name ++ rest) = (field name, rest) := by
  have inside : ∀ c ∈ name, (!isSpecial c) = true := by simpa using plain
  have taken : rest.takeWhile (!isSpecial ·) = [] ∧ rest.dropWhile (!isSpecial ·) = rest := by
    cases rest with
    | nil => simp
    | cons c behind => rcases follows c rfl with rfl | rfl <;> simp [isSpecial]
  rw [readPlain, List.takeWhile_append_of_pos inside, List.dropWhile_append_of_pos inside, taken.1, taken.2,
    List.append_nil]

theorem read_index (i : Int) (rest : Text) :
    read (.char '[' :: Numeral.integer i ++ .char ']' :: rest) = some (index i, rest) := by
  have digits : ∀ c ∈ Numeral.integer i, c ≠ '*' ∧ c ≠ '\'' ∧ c ≠ ']' := by
    intro c member
    rcases Numeral.mem_integer member with rfl | digit
    · decide
    · refine ⟨?_, ?_, ?_⟩ <;> rintro rfl <;> exact absurd digit (by decide)
  have inside : ∀ c ∈ Numeral.integer i, decide (c ≠ ']') = true := fun c member => by simp [digits c member]
  have first : ∀ c behind, Numeral.integer i ++ .char ']' :: rest = c :: behind → c ≠ '*' ∧ c ≠ '\'' := by
    intro c behind same
    cases shown : Numeral.integer i with
    | nil => exact absurd shown (Numeral.integer_ne_nil i)
    | cons d digitsBehind =>
      rw [shown, List.cons_append, List.cons.injEq] at same
      obtain ⟨star, quote, _⟩ := digits d (shown ▸ List.mem_cons_self)
      exact same.1 ▸ ⟨star, quote⟩
  rw [List.cons_append, read, List.takeWhile_append_of_pos inside, List.dropWhile_append_of_pos inside]
  · simp [Numeral.integerOf_integer]
  · exact fun behind same => (first _ _ same).1 rfl
  · exact fun behind same => (first _ _ same).2 rfl

theorem read_quoted (name : Text) (rest : Text) :
    read (.char '[' :: .char '\'' :: (name.flatMap escape ++ .char '\'' :: .char ']' :: rest)) =
      some (field name, rest) := by
  rw [read, unquote_escape]
  simp

/-- What begins with neither a bracket nor a point is read from its first character on. -/
theorem read_first {c : CodePoint} {text : Text} (plain : isSpecial c = false) :
    read (c :: text) = some (readPlain (c :: text)) := by
  unfold read
  split <;> simp_all [isSpecial]

/-- The first segment of a text is read off it. -/
theorem read_render (named : s.Named) (follows : Follows rest) : read (s.render started ++ rest) = some (s, rest) := by
  cases s with
  | each => rfl
  | index i =>
    rw [render, List.append_assoc, List.singleton_append]
    exact read_index i rest
  | field name =>
    cases special : name.any isSpecial with
    | true =>
      have closed : (field name).render started ++ rest =
          .char '[' :: .char '\'' :: (name.flatMap escape ++ .char '\'' :: .char ']' :: rest) := by
        simp [render, special]
      rw [closed, read_quoted]
    | false =>
      have found := congrArg some (readPlain_append special follows)
      cases started with
      | true =>
        have opened : (field name).render true ++ rest = .char '.' :: (name ++ rest) := by simp [render, special]
        rw [opened]
        exact found
      | false =>
        have bare : (field name).render false ++ rest = name ++ rest := by simp [render, special]
        rw [bare, ← found]
        cases shown : name with
        | nil => exact absurd shown named
        | cons c text =>
          rw [List.cons_append]
          exact read_first (by simpa [shown] using (List.any_eq_false.mp special) c (shown ▸ List.mem_cons_self))

/-- Every segment but the first is told from what precedes it by its first character. -/
theorem render_follows (rest : Text) : Follows (s.render true ++ rest) := by
  intro c first
  cases s with
  | each => exact .inr (Option.some.inj first).symm
  | index i => exact .inr (Option.some.inj first).symm
  | field name =>
    unfold render at first
    cases special : name.any isSpecial with
    | true => exact .inr (by simpa [special, eq_comm] using first)
    | false => exact .inl (by simpa [special, eq_comm] using first)

theorem render_ne_nil (named : s.Named) : s.render started ≠ [] := by
  intro empty
  have nothing : Follows [] := fun _ none => nomatch none
  have read : read (s.render started ++ []) = some (s, []) := read_render named nothing
  rw [empty, List.append_nil] at read
  obtain rfl : s = field "" := (Prod.ext_iff.mp (Option.some.inj read)).1.symm
  exact named rfl

end Segment

namespace Path
open Segment

variable {started : Bool} {segments others : List Segment} {indices choices : List Int}

/-- All fields on the way have names. -/
def Named (segments : List Segment) : Prop := ∀ s ∈ segments, s.Named

/-- No index is chosen yet. -/
def Symbolic (segments : List Segment) : Prop := ∀ i, .index i ∉ segments

theorem renderFrom_cons {s : Segment} (named : s.Named) (segments : List Segment) :
    renderFrom started (s :: segments) = s.render started ++ renderFrom true segments := by
  have some : (!(s.render started).isEmpty) = true := by simp [render_ne_nil named]
  rw [renderFrom, some, Bool.or_true]

theorem renderFrom_follows (named : Named segments) : Follows (renderFrom true segments) := by
  cases segments with
  | nil => exact fun _ none => nomatch none
  | cons s rest =>
    rw [renderFrom_cons (named s List.mem_cons_self)]
    exact render_follows _

/-- The text of a path whose fields have names determines its segments. -/
theorem renderFrom_injective (named : Named segments) (alsoNamed : Named others)
    (same : renderFrom started segments = renderFrom started others) : segments = others := by
  induction segments generalizing others started with
  | nil =>
    cases others with
    | nil => rfl
    | cons s rest =>
      rw [renderFrom_cons (alsoNamed s List.mem_cons_self)] at same
      exact absurd (List.append_eq_nil_iff.mp same.symm).1 (render_ne_nil (alsoNamed s List.mem_cons_self))
  | cons s rest ih =>
    obtain ⟨first, behind⟩ := List.forall_mem_cons.mp named
    rw [renderFrom_cons first] at same
    cases others with
    | nil => exact absurd (List.append_eq_nil_iff.mp same).1 (render_ne_nil first)
    | cons u more =>
      obtain ⟨other, following⟩ := List.forall_mem_cons.mp alsoNamed
      rw [renderFrom_cons other] at same
      have found := congrArg Segment.read same
      rw [read_render first (renderFrom_follows behind), read_render other (renderFrom_follows following)] at found
      obtain ⟨rfl, texts⟩ := Prod.ext_iff.mp (Option.some.inj found)
      rw [ih behind following texts]

theorem text_injective (named : Named segments) (alsoNamed : Named others)
    (same : (Path.mk segments).text = (Path.mk others).text) : segments = others :=
  renderFrom_injective named alsoNamed same

theorem fill_named (named : Named segments) (indices : List Int) : Named (fill segments indices) := by
  induction segments generalizing indices with
  | nil => exact named
  | cons s rest ih =>
    obtain ⟨first, behind⟩ := List.forall_mem_cons.mp named
    cases s with
    | each =>
      cases indices with
      | nil => exact List.forall_mem_cons.mpr ⟨first, ih behind []⟩
      | cons i indices => exact List.forall_mem_cons.mpr ⟨trivial, ih behind indices⟩
    | field name => exact List.forall_mem_cons.mpr ⟨first, ih behind indices⟩
    | index i => exact List.forall_mem_cons.mpr ⟨first, ih behind indices⟩

/-- The level that an index was chosen for. -/
def level : Segment → Segment
  | .index _ => .each
  | s => s

def chosen? : Segment → Option Int
  | .index i => some i
  | _ => none

theorem symbolic_cons {s : Segment} {rest : List Segment} :
    Symbolic (s :: rest) ↔ (∀ i, s ≠ .index i) ∧ Symbolic rest := by
  simp only [Symbolic, List.mem_cons, not_or, forall_and, ne_eq, eq_comm]

/-- The path that indices were chosen for is seen in the path that they make. -/
theorem level_fill (symbolic : Symbolic segments) (indices : List Int) :
    (fill segments indices).map level = segments := by
  induction segments generalizing indices with
  | nil => rfl
  | cons s rest ih =>
    obtain ⟨unchosen, behind⟩ := symbolic_cons.mp symbolic
    cases s with
    | each => cases indices <;> exact congrArg (Segment.each :: ·) (ih behind _)
    | field name => exact congrArg (Segment.field name :: ·) (ih behind indices)
    | index i => exact absurd rfl (unchosen i)

/-- So are the indices, when there is one for each level. -/
theorem chosen_fill (symbolic : Symbolic segments) (enough : indices.length = segments.countP (· = .each)) :
    (fill segments indices).filterMap chosen? = indices := by
  induction segments generalizing indices with
  | nil => exact (List.length_eq_zero_iff.mp enough).symm
  | cons s rest ih =>
    obtain ⟨unchosen, behind⟩ := symbolic_cons.mp symbolic
    cases s with
    | each =>
      cases indices with
      | nil => simp at enough
      | cons i indices => exact congrArg (i :: ·) (ih behind (by simpa using enough))
    | field name => exact ih behind (by simpa using enough)
    | index i => exact absurd rfl (unchosen i)

theorem instantiate_eq_ok_iff {path concrete : Path} :
    path.instantiate indices = .ok concrete ↔
      indices.length = path.wildcardCount ∧ (∀ i ∈ indices, Numeral.isWritable i) ∧ (∀ i ∈ indices, 0 ≤ i) ∧
        concrete = ⟨fill path.segments indices⟩ := by
  unfold instantiate
  split
  · next wrong => simp [wrong]
  · next count =>
    have count := Decidable.not_not.mp count
    split
    · next long =>
      obtain ⟨i, member, digits⟩ := List.any_eq_true.mp long
      have found : ¬ ∀ i ∈ indices, Numeral.isWritable i := fun every => absurd (every i member) (by simpa using digits)
      simp [found]
    · next short =>
      have writable : ∀ i ∈ indices, Numeral.isWritable i := by simpa using short
      split
      · next negative =>
        obtain ⟨i, member, below⟩ := List.any_eq_true.mp negative
        have found : ¬ ∀ i ∈ indices, 0 ≤ i := fun every => absurd (every i member) (by simpa using below)
        simp [found]
      · next positive =>
        have every : ∀ i ∈ indices, 0 ≤ i := by simpa using positive
        constructor
        · intro made
          exact ⟨count, writable, every, (Except.ok.inj made).symm⟩
        · rintro ⟨_, _, _, rfl⟩
          rfl

/-- Indices that cannot be written make no path. -/
theorem instantiate_of_long {path : Path} (count : indices.length = path.wildcardCount)
    (long : ¬ ∀ i ∈ indices, Numeral.isWritable i) : path.instantiate indices = .error .unwritable := by
  have found : indices.any (!Numeral.isWritable ·) = true := by simpa using long
  rw [instantiate, if_neg (not_not_intro count), if_pos found]

end Path

end PayloadSchema
