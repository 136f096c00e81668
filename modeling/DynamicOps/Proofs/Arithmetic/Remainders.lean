import DynamicOps.Proofs.Arithmetic.Outcomes

/-!
Remainders of integers. Whatever the kinds of two integers, modulo gives the remainder of their
64-bit words with the sign of the dividend. That is the remainder of the integers themselves unless
one of them lies above the 64-bit signed words.
-/

namespace DynamicOps

/-- An integer is left of a dividend by a divisor: the divisor divides what was taken away, and the
rest is smaller than the divisor and has the sign of the dividend unless it is zero.
-/
structure RemainderOf (m n r : Int) : Prop where
  dvd : n ∣ m - r
  smaller : r.natAbs < n.natAbs
  sign : r = 0 ∨ 0 < r ∧ 0 < m ∨ r < 0 ∧ m < 0

namespace RemainderOf

variable {m n r s : Int}

theorem tmod (hn : n ≠ 0) : RemainderOf m n (m.tmod n) where
  dvd := Int.dvd_self_sub_tmod
  smaller := by
    rw [Int.natAbs_tmod]
    exact Nat.mod_lt _ (Int.natAbs_pos.mpr hn)
  sign := by
    rcases Int.lt_trichotomy m 0 with hm | rfl | hm
    · have := Int.tmod_nonneg n (a := -m) (by omega)
      rw [Int.neg_tmod] at this
      omega
    · exact .inl (Int.zero_tmod n)
    · have := Int.tmod_nonneg n (a := m) (by omega)
      omega

/-- Two remainders are the same, since they are less than the divisor apart. -/
theorem unique (hr : RemainderOf m n r) (hs : RemainderOf m n s) : r = s := by
  have hdvd : n ∣ (m - s) - (m - r) := Int.dvd_sub hs.dvd hr.dvd
  have hclose : ((m - s) - (m - r)).natAbs < n.natAbs := by
    have := hr.smaller
    have := hs.smaller
    have := hr.sign
    have := hs.sign
    omega
  have := Int.eq_zero_of_dvd_of_natAbs_lt_natAbs hdvd hclose
  omega

theorem zero_iff (hn : n ≠ 0) : RemainderOf m n 0 ↔ n ∣ m := by
  constructor
  · intro h
    simpa using h.dvd
  · intro h
    exact ⟨by simpa using h, Int.natAbs_pos.mpr hn, .inl rfl⟩

/-- A dividend that is smaller than the divisor is its own remainder. -/
theorem self (h : m.natAbs < n.natAbs) : RemainderOf m n m where
  dvd := by simp
  smaller := h
  sign := by omega

/-- Dividends on both sides of zero have no remainder in common but zero. -/
theorem iff_dvd_of_opposite {m' n' : Int} (hm : 0 < m) (hm' : m' < 0) (hn : n ≠ 0)
    (h : RemainderOf m' n' r)
    : RemainderOf m n r ↔ n ∣ m ∧ n' ∣ m' := by
  have hn' : n' ≠ 0 := by
    have := h.smaller
    omega
  constructor
  · intro hr
    have hzero : r = 0 := by
      have := hr.sign
      have := h.sign
      omega
    subst hzero
    exact ⟨(zero_iff hn).mp hr, (zero_iff hn').mp h⟩
  · rintro ⟨hdvd, hdvd'⟩
    rw [h.unique ((zero_iff hn').mpr hdvd')]
    exact (zero_iff hn).mpr hdvd

end RemainderOf

/-- The words of two integers have the remainder of the integers. An integer above the 64-bit signed
words has a negative word. So as a dividend it has to leave nothing either way, and as a divisor it
has to be greater than the dividend either way unless nothing is left.
-/
def RemainderKept (m n : Int) : Prop :=
  if 9223372036854775807 < m then
    n ∣ m ∧ (9223372036854775807 < n ∨ n ∣ 18446744073709551616)
  else 9223372036854775807 < n → n ∣ m ∨ m.natAbs < 18446744073709551616 - n

/-- Only a wide integer itself is a wide multiple of it. -/
theorem dvd_iff_eq_of_wide {m n : Int} (hm : 9223372036854775807 < m)
    (hm' : m ≤ 18446744073709551615) (hn : 9223372036854775807 < n)
    (hn' : n ≤ 18446744073709551615)
    : n ∣ m ↔ m = n := by
  constructor
  · intro h
    have hdvd : n ∣ m - n := Int.dvd_sub h (Int.dvd_refl n)
    have := Int.eq_zero_of_dvd_of_natAbs_lt_natAbs hdvd (by omega)
    omega
  · rintro rfl
    exact Int.dvd_refl m

/-- A wide divisor against a dividend that is not wide, by cases on what is left. -/
theorem remainderOf_wide_divisor_iff {m n r : Int} (hm : -9223372036854775808 ≤ m)
    (hm' : m ≤ 9223372036854775807) (hn : 9223372036854775807 < n)
    (hn' : n ≤ 18446744073709551615) (h : RemainderOf m (n - 18446744073709551616) r)
    : RemainderOf m n r ↔ n ∣ m ∨ m.natAbs < 18446744073709551616 - n := by
  have hn0 : n ≠ 0 := by omega
  constructor
  · intro hr
    by_cases hzero : r = 0
    · subst hzero
      exact .inl ((RemainderOf.zero_iff hn0).mp hr)
    · have hclose : (m - r).natAbs < n.natAbs := by
        have := hr.sign
        have := hr.smaller
        omega
      have := Int.eq_zero_of_dvd_of_natAbs_lt_natAbs hr.dvd hclose
      have := h.smaller
      exact .inr (by omega)
  · rintro (hdvd | hless)
    · have hcases : m = 0 ∨ m = -n ∧ n = 9223372036854775808 := by
        rcases Int.lt_trichotomy m 0 with hneg | hzero | hpos
        · have := Int.le_of_dvd (by omega) (Int.dvd_neg.mpr hdvd)
          omega
        · exact .inl hzero
        · have := Int.le_of_dvd hpos hdvd
          omega
      have hdvd' : n - 18446744073709551616 ∣ m := by
        rcases hcases with rfl | ⟨rfl, rfl⟩ <;> simp
      rw [h.unique ((RemainderOf.zero_iff (by omega)).mpr hdvd')]
      exact (RemainderOf.zero_iff hn0).mpr hdvd
    · rw [h.unique (.self (by omega))]
      exact .self (by omega)

/-- The remainder of two words is that of their integers exactly if it is kept, by cases on which of
the integers are wide.
-/
theorem remainderOf_iff_kept {k l : IntKind} {x : Word k} {y : Word l} {r : Int}
    (h : RemainderOf (Word.wrap x.val).val (Word.wrap y.val).val r)
    : RemainderOf x.val y.val r ↔ RemainderKept x.val y.val := by
  obtain ⟨hm, hm'⟩ := x.val_bounds
  obtain ⟨hn, hn'⟩ := y.val_bounds
  rw [Word.val_wrap_val, Word.val_wrap_val] at h
  generalize x.val = m at *
  generalize y.val = n at *
  unfold RemainderKept
  split at h
  next hmwide =>
    rw [if_pos hmwide]
    split at h
    next hnwide =>
      rw [RemainderOf.iff_dvd_of_opposite (by omega) (by omega) (by omega) h,
        dvd_iff_eq_of_wide hmwide hm' hnwide hn']
      refine and_congr_right fun hmn => ?_
      simp [hmn, hnwide]
    next hnwide =>
      have hn0 : n ≠ 0 := by
        have := h.smaller
        omega
      rw [RemainderOf.iff_dvd_of_opposite (by omega) (by omega) hn0 h, or_iff_right hnwide]
      exact and_congr_right fun hdvd => dvd_sub_right hdvd
  next hmwide =>
    rw [if_neg hmwide]
    split at h
    next hnwide =>
      rw [remainderOf_wide_divisor_iff hm (by omega) hnwide hn' h]
      simp [hnwide]
    next hnwide => exact iff_of_true h fun hwide => absurd hwide hnwide

/-- Two words have the remainder with the sign of the first one. It is smaller than the second one
and so a word itself.
-/
theorem Word.remainder?_eq_some {x y : Word64} (hy : y.val ≠ 0)
    : ∃ r, x.remainder? y = some r ∧ RemainderOf x.val y.val r.val := by
  have hremainder : RemainderOf x.val y.val (x.val.tmod y.val) := .tmod hy
  obtain ⟨hleast, hgreatest⟩ : (IntKind.signed .w64).least ≤ x.val.tmod y.val
      ∧ x.val.tmod y.val ≤ (IntKind.signed .w64).greatest := by
    have := hremainder.smaller
    have := y.least_le
    have := y.le_greatest
    simp only [IntKind.least, IntKind.greatest, Width.count] at *
    omega
  refine ⟨wrap (x.val.tmod y.val), if_neg hy, ?_⟩
  rw [val_eq_of_modEq hleast hgreatest (val_wrap_modEq _)]
  exact hremainder

variable {ε : Type} [Extension ε] {k l : IntKind}

theorem apply_modulo_int (x : Word k) (y : Word l) (hy : y.val ≠ 0)
    : ∃ r : Word64,
        apply (.compute .modulo) (.scalar ⟨.int k, x⟩ : Value ε) (.scalar ⟨.int l, y⟩)
          = .ok (.scalar (.ofWord r))
        ∧ RemainderOf (Word.wrap x.val).val (Word.wrap y.val).val r.val := by
  have hword : (Word.wrap y.val).val ≠ 0 := fun h => hy (Arithmetic.val_eq_zero_of_wrap h)
  obtain ⟨r, hr, hremainder⟩ := Word.remainder?_eq_some (x := Word.wrap x.val) hword
  have hkind (k : IntKind) : Kind.int k ∈ (Operator.compute .modulo).pairwiseKinds :=
    Arithmetic.mem_pairwiseKinds .modulo rfl
  have hcompute
      : (Body.promote .i64).compute? .modulo ⟨.int k, x⟩ ⟨.int l, y⟩ = some (.ok (.ofWord r)) := by
    simp [Body.compute?, Arithmetic.promoted?, Scalar.toWord?, Arithmetic.onWords?, hr, Except.map]
  exact ⟨r, apply_compute_of_performs (.promoted (hkind k) (hkind l) rfl) hcompute, hremainder⟩

/-- Modulo of two integers is a 64-bit word, the remainder of the words of both with the sign of the
dividend's word. It is the remainder of the integers exactly where that is kept, and so always if
neither is above the 64-bit signed words; and only a dividend that is negative or above these words
has a negative one.
-/
theorem modulo_remainder (x : Word k) (y : Word l) (hy : y.val ≠ 0)
    : ∃ r : Word64,
        apply (.compute .modulo) (.scalar ⟨.int k, x⟩ : Value ε) (.scalar ⟨.int l, y⟩)
          = .ok (.scalar (.ofWord r))
        ∧ RemainderOf (Word.wrap x.val).val (Word.wrap y.val).val r.val
        ∧ (RemainderOf x.val y.val r.val ↔ RemainderKept x.val y.val)
        ∧ (x.val ≤ 9223372036854775807 → y.val ≤ 9223372036854775807 →
            RemainderOf x.val y.val r.val)
        ∧ (r.val < 0 → x.val < 0 ∨ 9223372036854775807 < x.val) := by
  obtain ⟨r, hresult, hr⟩ := apply_modulo_int (ε := ε) x y hy
  have hkept := remainderOf_iff_kept hr
  refine ⟨r, hresult, hr, hkept, ?_, ?_⟩
  · intro hx hy
    rw [hkept, RemainderKept, if_neg (by omega)]
    intro hwide
    omega
  · intro hneg
    have hsign := hr.sign
    rw [Word.val_wrap_val] at hsign
    split at hsign <;> omega

/-- The least 64-bit word leaves nothing by minus one, although no word is their quotient. -/
theorem modulo_remainder_least
    : (-1 : Int) ≠ 0
      ∧ apply (.compute .modulo)
          (.scalar ⟨.int (.signed .w64), ⟨-9223372036854775808, by decide, by decide⟩⟩
            : Value Labelled)
          (.scalar ⟨.int (.signed .w8), ⟨-1, by decide, by decide⟩⟩)
        = .ok (.scalar (.ofWord ⟨0, by decide, by decide⟩)) := by
  obtain ⟨⟨r, hleast, hgreatest⟩, hresult, _, _, hexact, _⟩ :=
    @modulo_remainder Labelled _ (.signed .w64) (.signed .w8)
      ⟨-9223372036854775808, by decide, by decide⟩ ⟨-1, by decide, by decide⟩ (by decide)
  have hremainder : RemainderOf (-9223372036854775808) (-1) r := hexact (by decide) (by decide)
  obtain rfl : r = 0 := by
    have := hremainder.smaller
    omega
  exact ⟨by decide, hresult⟩

/-- The greatest 64-bit unsigned integer leaves minus one by ten, since that is its word, and so
no remainder of its own sign.
-/
theorem wide_dividend_without_remainder
    : apply (.compute .modulo)
          (.scalar ⟨.int (.unsigned .w64), ⟨18446744073709551615, by decide, by decide⟩⟩
            : Value Labelled)
          (.scalar ⟨.int (.unsigned .w64), ⟨10, by decide, by decide⟩⟩)
        = .ok (.scalar (.ofWord ⟨-1, by decide, by decide⟩))
      ∧ ¬ RemainderOf 18446744073709551615 10 (-1) := by
  obtain ⟨⟨r, hleast, hgreatest⟩, hresult, hr⟩ :=
    @apply_modulo_int Labelled _ (.unsigned .w64) (.unsigned .w64)
      ⟨18446744073709551615, by decide, by decide⟩ ⟨10, by decide, by decide⟩ (by decide)
  obtain rfl : r = -1 := hr.unique (.self (by decide))
  refine ⟨hresult, fun h => ?_⟩
  have := h.sign
  omega

end DynamicOps
