/-!
Nested brackets. A text is nested when every round or curly bracket in it is closed by one of its
kind, and what stands between the two is nested itself. Reading a text from the front with the
brackets that are open decides this, and tells what a piece of a line does to the open brackets.
-/

namespace DynamicOps

/-- The brackets that come in pairs. -/
inductive Bracket
  | round
  | curly
deriving DecidableEq

namespace Bracket

/-- The character that opens a bracket. -/
def opening : Bracket → Char
  | round => '('
  | curly => '\x7b'

/-- The character that closes a bracket. -/
def closing : Bracket → Char
  | round => ')'
  | curly => '\x7d'

end Bracket

/-- Every bracket of the text is closed by one of its kind, around a text of which the same holds.
-/
inductive Nested : List Char → Prop
  | nil : Nested []
  | plain {c : Char} {cs : List Char} (hc : ∀ b : Bracket, c ≠ b.opening ∧ c ≠ b.closing)
    (hcs : Nested cs)
    : Nested (c :: cs)
  | enclosed {b : Bracket} {inner cs : List Char} (hinner : Nested inner) (hcs : Nested cs)
    : Nested (b.opening :: (inner ++ b.closing :: cs))

/-- One nested text after the other is nested, by induction over the first one. -/
theorem Nested.append {cs ds : List Char} (hcs : Nested cs) (hds : Nested ds)
    : Nested (cs ++ ds) := by
  induction hcs with
  | nil => exact hds
  | plain hc _ ih => exact .plain hc ih
  | enclosed hinner _ _ ih =>
      rw [List.cons_append, List.append_assoc, List.cons_append]
      exact .enclosed hinner ih

namespace Bracket

/-- The bracket that a character opens. -/
def opened? (c : Char) : Option Bracket :=
  [round, curly].find? (·.opening = c)

/-- The bracket that a character closes. -/
def closed? (c : Char) : Option Bracket :=
  [round, curly].find? (·.closing = c)

/-- The brackets that are open after a character, the innermost one first, from those before it. A
closing bracket has to close the innermost one.
-/
def read (before : List Bracket) (c : Char) : Option (List Bracket) :=
  match opened? c, closed? c with
  | some b, _ => some (b :: before)
  | none, some b => if before.head? = some b then some before.tail else none
  | none, none => some before

theorem opened?_eq_some_iff {c : Char} {b : Bracket} : opened? c = some b ↔ c = b.opening := by
  constructor
  · intro h
    simpa [eq_comm] using List.find?_some h
  · rintro rfl
    cases b <;> rfl

theorem closed?_eq_some_iff {c : Char} {b : Bracket} : closed? c = some b ↔ c = b.closing := by
  constructor
  · intro h
    simpa [eq_comm] using List.find?_some h
  · rintro rfl
    cases b <;> rfl

theorem read_opening (b : Bracket) (before : List Bracket)
    : read before b.opening = some (b :: before) := by
  cases b <;> rfl

theorem read_closing (b : Bracket) (before : List Bracket)
    : read (b :: before) b.closing = some before := by
  cases b <;> rfl

theorem read_plain {c : Char} (hc : ∀ b : Bracket, c ≠ b.opening ∧ c ≠ b.closing)
    (before : List Bracket)
    : read before c = some before := by
  have hopened : opened? c = none :=
    Option.eq_none_iff_forall_ne_some.mpr fun b hb => (hc b).1 (opened?_eq_some_iff.mp hb)
  have hclosed : closed? c = none :=
    Option.eq_none_iff_forall_ne_some.mpr fun b hb => (hc b).2 (closed?_eq_some_iff.mp hb)
  rw [read, hopened, hclosed]

/-- A nested text leaves all brackets as they were, by induction over the text. -/
theorem read_nested {cs : List Char} (h : Nested cs) (before : List Bracket)
    : cs.foldlM read before = some before := by
  induction h generalizing before with
  | nil => rfl
  | plain hc _ ih =>
      rw [List.foldlM_cons, read_plain hc]
      exact ih before
  | @enclosed b inner cs _ _ ihinner ihcs =>
      simp [read_opening, ihinner, read_closing, ihcs]

/-- The text closes some brackets, the innermost one first, with nested texts around them. -/
inductive Closes : List Bracket → List Char → Prop
  | none {cs : List Char} (h : Nested cs) : Closes [] cs
  | one {b : Bracket} {before : List Bracket} {inner cs : List Char} (hinner : Nested inner)
    (hcs : Closes before cs)
    : Closes (b :: before) (inner ++ b.closing :: cs)

theorem Closes.append {before : List Bracket} {cs ds : List Char} (hcs : Nested cs)
    (hds : Closes before ds)
    : Closes before (cs ++ ds) := by
  cases hds with
  | none hds => exact .none (hcs.append hds)
  | one hinner hds =>
      rw [← List.append_assoc]
      exact .one (hcs.append hinner) hds

/-- A character in front of a text that closes what is open after it. -/
theorem Closes.cons {before after : List Bracket} {c : Char} {cs : List Char}
    (hread : read before c = some after) (hcs : Closes after cs)
    : Closes before (c :: cs) := by
  rw [read] at hread
  split at hread
  next b _ hb =>
    -- The text closes the new bracket first, and what follows closes the others.
    obtain rfl := opened?_eq_some_iff.mp hb
    cases hread
    cases hcs with
    | one hinner hrest => simpa using Closes.append (.enclosed hinner .nil) hrest
  next b _ hb =>
    obtain rfl := closed?_eq_some_iff.mp hb
    split at hread
    next hinnermost =>
      cases hread
      obtain ⟨outer, rfl⟩ := List.head?_eq_some_iff.mp hinnermost
      exact .one .nil hcs
    next => cases hread
  next hopened hclosed =>
    cases hread
    have hc (b : Bracket) : c ≠ b.opening ∧ c ≠ b.closing := by
      simp [Ne, ← opened?_eq_some_iff, ← closed?_eq_some_iff, hopened, hclosed]
    exact Closes.append (.plain hc .nil) hcs

/-- A text after which no bracket is open has closed all that were, by induction over the text. -/
theorem closes_of_read {before : List Bracket} {cs : List Char}
    (h : cs.foldlM read before = some [])
    : Closes before cs := by
  induction cs generalizing before with
  | nil =>
      cases h
      exact .none .nil
  | cons c cs ih =>
      rw [List.foldlM_cons] at h
      obtain ⟨after, hread, h⟩ := Option.bind_eq_some_iff.mp h
      exact .cons hread (ih h)

end Bracket

/-- A text is nested exactly when reading it finds every bracket closed. -/
theorem nested_iff {cs : List Char} : Nested cs ↔ cs.foldlM Bracket.read [] = some [] := by
  refine ⟨fun h => Bracket.read_nested h [], fun h => ?_⟩
  cases Bracket.closes_of_read h with
  | none h => exact h

instance (cs : List Char) : Decidable (Nested cs) :=
  decidable_of_iff _ nested_iff.symm

example : Nested "f(\x7bx\x7d)".toList ∧ ¬ Nested "f(\x7bx)\x7d".toList := by
  decide

/-- The brackets that are open after a piece of a line, from those before it. A line feed is in no
line.
-/
def openAfter? (before : List Bracket) (piece : String) : Option (List Bracket) :=
  piece.toList.foldlM (fun before c => if c = '\n' then none else Bracket.read before c) before

/-- A piece of a line in which every bracket is closed. -/
def Inline (piece : String) : Prop :=
  ∀ before, openAfter? before piece = some before

theorem openAfter?_append (before : List Bracket) (piece more : String)
    : openAfter? before (piece ++ more)
      = (openAfter? before piece).bind fun after => openAfter? after more := by
  simp [openAfter?, List.foldlM_append]

/-- What a piece of a line does to the open brackets, its characters do, and none of them is a line
feed. By induction over the characters.
-/
theorem read_of_openAfter? {before after : List Bracket} {piece : String}
    (h : openAfter? before piece = some after)
    : '\n' ∉ piece.toList ∧ piece.toList.foldlM Bracket.read before = some after := by
  unfold openAfter? at h
  generalize piece.toList = cs at h ⊢
  induction cs generalizing before with
  | nil => exact ⟨List.not_mem_nil, h⟩
  | cons c cs ih =>
      rw [List.foldlM_cons] at h
      obtain ⟨between, hread, h⟩ := Option.bind_eq_some_iff.mp h
      split at hread
      next => cases hread
      next hc =>
        obtain ⟨hnot, hcs⟩ := ih h
        refine ⟨?_, ?_⟩
        · simpa using ⟨Ne.symm hc, hnot⟩
        · rw [List.foldlM_cons, hread]
          exact hcs

end DynamicOps
