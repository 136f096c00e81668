import DynamicOps.Number.Word
import Mathlib.Data.Int.ModEq

/-!
Wrapping integers around to 64-bit signed words. Wrapping forgets multiples of the count of words,
and the integers of one kind never span that far.
-/

namespace DynamicOps

/-- The integers of every kind lie between the ends of the 64-bit kinds. -/
theorem IntKind.bounds (k : IntKind)
    : -9223372036854775808 ≤ k.least ∧ k.greatest ≤ 18446744073709551615 := by
  rcases k with w | w <;> cases w <;> decide

theorem Width.count_le (w : Width) : w.count ≤ 18446744073709551616 := by
  cases w <;> decide

/-- The integers of two unsigned kinds together span less than the count of 64-bit words, and so do
those of two signed kinds.
-/
theorem IntKind.greatest_lt {k l : IntKind} (h : k.isSigned = l.isSigned)
    : k.greatest < l.least + 18446744073709551616 := by
  rcases k with v | v <;> rcases l with w | w
  case unsigned.unsigned | signed.signed =>
    have := v.count_le
    have := w.count_le
    simp only [greatest, least]
    omega
  all_goals cases h

namespace Word

/-- A word of any kind lies between the ends of the 64-bit kinds. -/
theorem val_bounds {k : IntKind} (x : Word k)
    : -9223372036854775808 ≤ x.val ∧ x.val ≤ 18446744073709551615 :=
  ⟨Int.le_trans k.bounds.1 x.least_le, Int.le_trans x.le_greatest k.bounds.2⟩

/-- Integers above the 64-bit signed words fall by the count of words, and the others stay. -/
theorem val_wrap_val {k : IntKind} (x : Word k)
    : (wrap x.val).val
      = if 9223372036854775807 < x.val then x.val - 18446744073709551616 else x.val := by
  have := x.val_bounds
  simp only [wrap, Int.bmod]
  split <;> split <;> omega

theorem add_comm (v w : Word64) : v.add w = w.add v := by
  rw [add, add, Int.add_comm]

theorem multiply_comm (v w : Word64) : v.multiply w = w.multiply v := by
  rw [multiply, multiply, Int.mul_comm]

/-- Two integers wrap to the same word when they differ by a multiple of the count of words. -/
theorem wrap_eq_wrap_iff {m n : Int}
    : wrap m = wrap n ↔ (m - n) % 18446744073709551616 = 0 := by
  simp only [wrap, Int.bmod, mk.injEq]
  omega

/-- Wrapping an integer around does not change its residue. -/
theorem val_wrap_modEq (n : Int) : (wrap n).val ≡ n [ZMOD 18446744073709551616] := by
  simp only [Int.ModEq, wrap]
  exact Int.bmod_emod

/-- A 64-bit word is the only integer of its residue that fits such a word. -/
theorem val_eq_of_modEq {w : Word64} {n : Int} (hleast : (IntKind.signed .w64).least ≤ n)
    (hgreatest : n ≤ (IntKind.signed .w64).greatest)
    (h : w.val ≡ n [ZMOD 18446744073709551616])
    : w.val = n := by
  have := w.least_le
  have := w.le_greatest
  simp only [IntKind.least, IntKind.greatest, Width.count] at *
  unfold Int.ModEq at h
  omega

/-- Words of two unsigned or two signed kinds wrap to the same 64-bit word only when they hold the
same integer.
-/
theorem wrap_val_eq_wrap_val_iff {k l : IntKind} (h : k.isSigned = l.isSigned) (x : Word k)
    (y : Word l)
    : wrap x.val = wrap y.val ↔ x.val = y.val := by
  have := IntKind.greatest_lt h
  have := IntKind.greatest_lt h.symm
  have := x.least_le
  have := x.le_greatest
  have := y.least_le
  have := y.le_greatest
  rw [wrap_eq_wrap_iff]
  omega

/-- Words of two kinds that wrap to the same word hold the same integer unless they lie on both
sides of zero, by the ends of the 64-bit kinds.
-/
theorem val_eq_or_opposite_of_wrap_eq {k l : IntKind} {x : Word k} {y : Word l}
    (h : wrap x.val = wrap y.val)
    : x.val = y.val ∨ x.val < 0 ∧ 0 < y.val ∨ 0 < x.val ∧ y.val < 0 := by
  have := x.val_bounds
  have := y.val_bounds
  rw [wrap_eq_wrap_iff] at h
  omega

end Word

end DynamicOps
