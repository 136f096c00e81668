import DynamicOps.Proofs.Number.Widening
import DynamicOps.Value.Scalar
import Mathlib.Data.Prod.Lex
import Mathlib.Data.String.Basic

/-!
The order within a kind. The payloads of every kind have keys in a linear order, apart from floating
payloads that are not a number, and are compared by their keys. So at most one of the order,
equality, and the opposite order holds, exactly one where keys exist, and the order is transitive.
-/

namespace DynamicOps

namespace Kind

/-- What the payloads of a kind are ordered by. -/
abbrev Key : Kind → Type
  | int _ | float _ | duration => Int
  | text => String
  | bool => Bool
  | instant => Int ×ₗ Nat

instance : (k : Kind) → LinearOrder k.Key
  | int _ | float _ | duration => Int.instLinearOrder
  | text => String.instLinearOrder
  | bool => Bool.linearOrder
  | instant => @Prod.Lex.instLinearOrder Int Nat Int.instLinearOrder Nat.instLinearOrder

/-- The key of a payload; only a floating payload may have none. -/
def key? : (k : Kind) → k.Payload → Option k.Key
  | int _, x => some x.val
  | float _, x => x.key?
  | text, x => some x
  | bool, x => some x
  | instant, x => some (toLex (x.secs, x.nanos))
  | duration, x => some x.nanos

variable {k : Kind} {x y z : k.Payload}

/-- Payloads are ordered as their keys are. -/
theorem less_iff : k.less x y = true ↔ ∃ a b, k.key? x = some a ∧ k.key? y = some b ∧ a < b := by
  cases k with
  | int _ | text | duration => simp [less, key?]
  | bool => cases x <;> cases y <;> simp [less, key?]
  | instant => simp [less, key?, Instant.less, Prod.Lex.toLex_lt_toLex]
  | float p =>
      change Binary.less x y = true ↔ ∃ a b, x.key? = some a ∧ y.key? = some b ∧ a < b
      unfold Binary.less
      cases x.key? <;> cases y.key? <;> simp

theorem equal_iff : k.equal x y = true ↔ ∃ a, k.key? x = some a ∧ k.key? y = some a := by
  cases k with
  | int _ | text | bool => simpa [equal, key?] using eq_comm
  | duration =>
      obtain ⟨m, _, _⟩ := x
      obtain ⟨n, _, _⟩ := y
      simpa [equal, key?] using eq_comm
  | instant =>
      obtain ⟨secs, nanos, _, _, _, _⟩ := x
      obtain ⟨secs', nanos', _, _, _, _⟩ := y
      have hcomm : secs = secs' ∧ nanos = nanos' ↔ secs' = secs ∧ nanos' = nanos :=
        and_congr eq_comm eq_comm
      simpa [equal, key?] using hcomm
  | float p => exact Binary.equal_iff x y

theorem less_trans (hxy : k.less x y = true) (hyz : k.less y z = true) : k.less x z = true := by
  rw [less_iff] at *
  obtain ⟨a, b, ha, hb, hab⟩ := hxy
  obtain ⟨b', c, hb', hc, hbc⟩ := hyz
  obtain rfl : b = b' := Option.some.inj (hb.symm.trans hb')
  exact ⟨a, c, ha, hc, hab.trans hbc⟩

theorem less_of_keys {a b : k.Key} (hx : k.key? x = some a) (hy : k.key? y = some b)
    : k.less x y = decide (a < b) := by
  rw [Bool.eq_iff_iff, less_iff, decide_eq_true_iff]
  simp [hx, hy]

theorem equal_of_keys {a b : k.Key} (hx : k.key? x = some a) (hy : k.key? y = some b)
    : k.equal x y = decide (a = b) := by
  rw [Bool.eq_iff_iff, equal_iff, decide_eq_true_iff]
  simp [hx, hy, eq_comm]

theorem comparisons_of_no_key (h : k.key? x = none ∨ k.key? y = none)
    : k.less x y = false ∧ k.equal x y = false := by
  simp only [← Bool.not_eq_true, less_iff, equal_iff]
  rcases h with h | h <;> simp [h]

/-- At most one of the order, equality, and the opposite order holds, and one of them does if both
payloads have keys, by trichotomy of the keys.
-/
theorem count_comparisons (k : Kind) (x y : k.Payload)
    : [k.less x y, k.equal x y, k.less y x].count true
      = if (k.key? x).isSome && (k.key? y).isSome then 1 else 0 := by
  cases hx : k.key? x with
  | none =>
      obtain ⟨hless, hequal⟩ := comparisons_of_no_key (y := y) (.inl hx)
      simp [hless, hequal, comparisons_of_no_key (.inr hx)]
  | some a =>
      cases hy : k.key? y with
      | none =>
          obtain ⟨hless, hequal⟩ := comparisons_of_no_key (x := x) (.inr hy)
          simp [hless, hequal, comparisons_of_no_key (.inl hy)]
      | some b =>
          rw [less_of_keys hx hy, equal_of_keys hx hy, less_of_keys hy hx]
          rcases lt_trichotomy a b with h | h | h
          · simp [h, h.ne, h.not_gt]
          · simp [h]
          · simp [h, h.ne', h.not_gt]

end Kind

end DynamicOps
