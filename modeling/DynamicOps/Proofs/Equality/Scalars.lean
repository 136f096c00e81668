import DynamicOps.Operation.Body
import DynamicOps.Proofs.Equality.Cases
import DynamicOps.Proofs.Number.Widening
import DynamicOps.Proofs.Number.Wrapping
import DynamicOps.Proofs.Registry.Promotion

/-!
Equality of scalars. Against a floating number every number compares by its place in double
precision; among the other scalars integers compare as 64-bit words, whatever their kinds, and the
rest within a kind. Each of the two sides alone is an equality of images.
-/

namespace DynamicOps

namespace Scalar

/-- What the equality table answers on two scalars, if it has a case for their kinds. -/
def comparison? (s t : Scalar) : Option Bool :=
  (equalityBody? (.scalar s.kind) (.scalar t.kind)).bind fun body => body.relate? Kind.equal s t

/-- Operator equality of two scalars; kinds without a case in the table are never equal. -/
def equal (s t : Scalar) : Bool :=
  (s.comparison? t).getD false

/-- Scalars of one kind compare natively. -/
theorem comparison?_same_kind {k : Kind} (x y : k.Payload)
    : comparison? ⟨k, x⟩ ⟨k, y⟩ = some (k.equal x y) := by
  simp [comparison?, equalityBody?, Body.relate?, related?]

/-- Scalars of different kinds compare in the domain of the lattice, if both are numeric. -/
theorem comparison?_of_kind_ne {s t : Scalar} (h : s.kind ≠ t.kind)
    : s.comparison? t
      = if s.kind.isNumeric && t.kind.isNumeric then
          (promote .equal s.kind t.kind).bind fun domain => s.relatedIn? Kind.equal domain t
        else none := by
  by_cases hn : (s.kind.isNumeric && t.kind.isNumeric) = true
  · simp [comparison?, equalityBody?, h, hn, Option.bind_map, Body.relate?]
  · simp [comparison?, equalityBody?, h, hn]

/-- Integers of all kinds compare as 64-bit words, since words of one kind wrap apart. -/
theorem comparison?_int_int {k l : IntKind} (x : Word k) (y : Word l)
    : comparison? ⟨.int k, x⟩ ⟨.int l, y⟩ = some (decide (Word.wrap x.val = Word.wrap y.val)) := by
  by_cases h : k = l
  · subst h
    simp [comparison?_same_kind, Kind.equal, Word.wrap_val_eq_wrap_val_iff]
  · rw [comparison?_of_kind_ne (by simpa using h)]
    have hval (v w : Word64) : v.val = w.val ↔ v = w := by
      rw [Word.mk.injEq]
    change some (decide ((Word.wrap x.val).val = (Word.wrap y.val).val)) = _
    simp [hval]

theorem equal_same_kind {k : Kind} (x y : k.Payload) : equal ⟨k, x⟩ ⟨k, y⟩ = k.equal x y := by
  rw [equal, comparison?_same_kind, Option.getD_some]

theorem equal_int_int {k l : IntKind} (x : Word k) (y : Word l)
    : equal ⟨.int k, x⟩ ⟨.int l, y⟩ = decide (Word.wrap x.val = Word.wrap y.val) := by
  rw [equal, comparison?_int_int, Option.getD_some]

end Scalar

/-- Equality within a kind is symmetric, floating numbers included. -/
theorem Kind.equal_comm (k : Kind) (x y : k.Payload) : k.equal x y = k.equal y x := by
  cases k with
  | int _ | text | bool | instant | duration => simp [Kind.equal, eq_comm]
  | float p =>
      change Binary.equal x y = Binary.equal y x
      unfold Binary.equal
      cases x.key? <;> cases y.key? <;> simp [eq_comm]

namespace Scalar

/-- A symmetric relation stays symmetric on scalars converted to a domain. -/
theorem relatedIn?_comm {rel : PayloadRelation} (hrel : ∀ k x y, rel k x y = rel k y x)
    (domain : Kind) (s t : Scalar)
    : s.relatedIn? rel domain t = t.relatedIn? rel domain s := by
  unfold relatedIn?
  split
  · cases s.toWord? <;> cases t.toWord? <;> simp [hrel .i64]
  · cases s.toWord? <;> cases t.toWord? <;> simp [hrel .i64]
  · cases s.toBinary? <;> cases t.toBinary? <;> simp [hrel .f64]
  · rfl

/-- The equality table answers on two scalars in either order alike. -/
theorem comparison?_comm (s t : Scalar) : s.comparison? t = t.comparison? s := by
  by_cases h : s.kind = t.kind
  · obtain ⟨k, x⟩ := s
    obtain ⟨l, y⟩ := t
    cases h
    rw [comparison?_same_kind, comparison?_same_kind, Kind.equal_comm]
  · rw [comparison?_of_kind_ne h, comparison?_of_kind_ne (Ne.symm h), Bool.and_comm,
      promote_comm]
    simp only [relatedIn?_comm Kind.equal_comm]

theorem equal_comm (s t : Scalar) : s.equal t = t.equal s := by
  rw [equal, comparison?_comm, ← equal]

/-- A number's place in double precision, by which it compares with floating numbers. -/
def place? : Scalar → Option Int
  | ⟨.int _, x⟩ => (Binary.ofInt x.val : Binary64).key?
  | ⟨.float _, x⟩ => (x.convert : Binary64).key?
  | _ => none

/-- A scalar with its integer, if it is one, wrapped to a 64-bit word. -/
def canonical : Scalar → Scalar
  | ⟨.int _, x⟩ => .ofWord (.wrap x.val)
  | s => s

/-- A floating number equals the numbers at its place, by cases on the other kind. -/
theorem equal_iff_place? {s t : Scalar} (h : s.kind.isFloat = true)
    : s.equal t = true ↔ ∃ r, s.place? = some r ∧ t.place? = some r := by
  obtain ⟨k, x⟩ := s
  obtain ⟨l, y⟩ := t
  cases k with
  | int _ | text | bool | instant | duration => cases h
  | float p =>
      cases l with
      | int l =>
          rw [equal, comparison?_of_kind_ne Kind.noConfusion]
          change Binary.equal (x.convert : Binary64) (.ofInt y.val) = true ↔ _
          exact Binary.equal_iff _ _
      | float q =>
          by_cases hpq : p = q
          · subst hpq
            rw [equal_same_kind]
            change Binary.equal x y = true ↔ _
            rw [← Binary.equal_convert]
            exact Binary.equal_iff _ _
          · rw [equal, comparison?_of_kind_ne (by simpa using hpq)]
            change Binary.equal (x.convert : Binary64) y.convert = true ↔ _
            exact Binary.equal_iff _ _
      | text | bool | instant | duration =>
          rw [equal, comparison?_of_kind_ne Kind.noConfusion]
          simp [place?, Kind.isNumeric, Kind.isInteger, Kind.isFloat]

/-- Scalars other than floating numbers are equal when their canonical forms are the same, by
cases on both kinds.
-/
theorem equal_iff_canonical_eq {s t : Scalar} (hs : s.kind.isFloat = false)
    (ht : t.kind.isFloat = false)
    : s.equal t = true ↔ s.canonical = t.canonical := by
  obtain ⟨k, x⟩ := s
  obtain ⟨l, y⟩ := t
  by_cases h : k = l
  · subst h
    cases k with
    | float p => cases hs
    | int k =>
        rw [equal_int_int]
        simp [canonical, ofWord]
    | text | bool | instant | duration =>
        rw [equal_same_kind]
        simp [Kind.equal, canonical]
  · cases k with
    | float p => cases hs
    | int k =>
        cases l with
        | float q => cases ht
        | int l =>
            rw [equal_int_int]
            simp [canonical, ofWord]
        | text | bool | instant | duration =>
            rw [equal, comparison?_of_kind_ne h]
            simp [canonical, ofWord, Kind.isNumeric, Kind.isInteger, Kind.isFloat]
    | text | bool | instant | duration =>
        rw [equal, comparison?_of_kind_ne h]
        cases l with
        | float q => cases ht
        | int _ | text | bool | instant | duration =>
            simp [canonical, ofWord, Kind.isNumeric, Kind.isInteger, Kind.isFloat] at h ⊢

end Scalar

end DynamicOps
