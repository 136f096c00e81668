import DynamicOps.Number.Binary
import Mathlib.Tactic.Positivity
import Mathlib.Tactic.Ring

/-!
Magnitudes of floating formats. A rank stands for one normalized significand at one step of the
exponent, and a normalized magnitude in the reach of double precision is not rounded there.
-/

namespace DynamicOps

namespace Format

/-- A significand at a step of the exponent is the one that a format with so many fraction bits
uses: it has at most one bit more, and exactly that many above the least step.
-/
structure Normalized (bits step significand : Nat) : Prop where
  lt : significand < 2 ^ (bits + 1)
  le : step = 0 ∨ 2 ^ bits ≤ significand

/-- Normalized magnitudes of a greater step are greater. -/
private theorem Normalized.magnitude_lt {bits u v m n : Nat} (hm : Normalized bits u m)
    (hn : Normalized bits v n) (h : u < v)
    : m * 2 ^ u < n * 2 ^ v := by
  have hle : 2 ^ bits ≤ n := hn.le.resolve_left (by omega)
  calc m * 2 ^ u < 2 ^ (bits + 1) * 2 ^ u := Nat.mul_lt_mul_of_pos_right hm.lt (by positivity)
    _ = 2 ^ bits * 2 ^ (u + 1) := by ring
    _ ≤ 2 ^ bits * 2 ^ v := Nat.mul_le_mul_left _ (Nat.pow_le_pow_right (by decide) h)
    _ ≤ n * 2 ^ v := Nat.mul_le_mul_right _ hle

/-- A magnitude has one normalized form. -/
theorem Normalized.eq_of_magnitude_eq {bits u v m n : Nat} (hm : Normalized bits u m)
    (hn : Normalized bits v n) (h : m * 2 ^ u = n * 2 ^ v)
    : u = v ∧ m = n := by
  rcases Nat.lt_trichotomy u v with hlt | rfl | hlt
  · exact absurd h (Nat.ne_of_lt (hm.magnitude_lt hn hlt))
  · exact ⟨rfl, Nat.eq_of_mul_eq_mul_right (by positivity) h⟩
  · exact absurd h.symm (Nat.ne_of_lt (hn.magnitude_lt hm hlt))

/-- Normalized magnitudes of a greater step have a greater rank. -/
private theorem Normalized.rank_lt {bits u v m n : Nat} (hm : Normalized bits u m)
    (hn : Normalized bits v n) (h : u < v)
    : u * 2 ^ bits + m < v * 2 ^ bits + n := by
  have hle : 2 ^ bits ≤ n := hn.le.resolve_left (by omega)
  have hlt := hm.lt
  have hstep : (u + 1) * 2 ^ bits ≤ v * 2 ^ bits := Nat.mul_le_mul_right _ h
  have hbits : 2 ^ (bits + 1) = 2 * 2 ^ bits := by ring
  have hsucc : (u + 1) * 2 ^ bits = u * 2 ^ bits + 2 ^ bits := by ring
  omega

/-- A rank belongs to one normalized magnitude. -/
theorem Normalized.eq_of_rank_eq {bits u v m n : Nat} (hm : Normalized bits u m)
    (hn : Normalized bits v n) (h : u * 2 ^ bits + m = v * 2 ^ bits + n)
    : u = v ∧ m = n := by
  rcases Nat.lt_trichotomy u v with hlt | rfl | hlt
  · exact absurd h (Nat.ne_of_lt (hm.rank_lt hn hlt))
  · exact ⟨rfl, Nat.add_left_cancel h⟩
  · exact absurd h.symm (Nat.ne_of_lt (hn.rank_lt hm hlt))

/-- The steps that the exponent of a rank lies above the least exponent. -/
def step (f : Format) (rank : Nat) : Nat :=
  if rank < f.fractions then 0 else rank / f.fractions - 1

theorem fractions_eq (f : Format) : f.fractions = 2 ^ f.fractionBits := by
  rw [fractions, Nat.shiftLeft_eq, Nat.one_mul]

theorem exponent_eq (f : Format) (rank : Nat)
    : f.exponent rank = f.leastExponent + f.step rank := by
  have hpos : 0 < f.fractions := by rw [fractions_eq]; positivity
  unfold exponent step
  split
  · simp
  · rename_i h
    have : 1 ≤ rank / f.fractions := (Nat.one_le_div_iff hpos).mpr (Nat.le_of_not_lt h)
    omega

/-- The significand of a rank is normalized at its step. -/
theorem normalized (f : Format) (rank : Nat)
    : Normalized f.fractionBits (f.step rank) (f.significand rank) := by
  have hpos : 0 < f.fractions := by rw [fractions_eq]; positivity
  have hbits : 2 ^ (f.fractionBits + 1) = 2 * f.fractions := by rw [fractions_eq]; ring
  unfold step significand
  split
  · exact ⟨by omega, .inl rfl⟩
  · have := Nat.mod_lt rank hpos
    exact ⟨by omega, .inr (by rw [← fractions_eq]; omega)⟩

/-- A rank counts the significands up to its own. -/
theorem rank_eq (f : Format) (rank : Nat)
    : f.step rank * 2 ^ f.fractionBits + f.significand rank = rank := by
  have hpos : 0 < f.fractions := by rw [fractions_eq]; positivity
  rw [← fractions_eq]
  unfold step significand
  split
  · simp
  · rename_i h
    have hone : 1 ≤ rank / f.fractions := (Nat.one_le_div_iff hpos).mpr (Nat.le_of_not_lt h)
    have hdiv := Nat.div_add_mod rank f.fractions
    have hmul : (rank / f.fractions - 1) * f.fractions + f.fractions
        = f.fractions * (rank / f.fractions) := by
      rw [← Nat.succ_mul, Nat.succ_eq_add_one, Nat.sub_add_cancel hone, Nat.mul_comm]
    omega

theorem scale_eq (n : Nat) (e : Int) : scale n e = n * 2 ^ e.toNat := by
  rw [scale, Nat.shiftLeft_eq]

private theorem log2_mul_two_pow {m : Nat} (hm : m ≠ 0) (k : Nat)
    : (m * 2 ^ k).log2 = m.log2 + k := by
  have hk : 0 < 2 ^ k := by positivity
  refine (Nat.log2_eq_iff (Nat.mul_ne_zero hm hk.ne')).mpr ⟨?_, ?_⟩
  · rw [Nat.pow_add]
    exact Nat.mul_le_mul_right _ (Nat.log2_self_le hm)
  · rw [Nat.add_right_comm, Nat.pow_add]
    exact Nat.mul_lt_mul_of_pos_right Nat.lt_log2_self hk

/-- The logarithm of a significand times a power of two is that of the significand, moved. -/
theorem ratioLog_scale {m : Nat} (hm : m ≠ 0) (e : Int)
    : ratioLog (scale m e) (scale 1 (-e)) = m.log2 + e := by
  have hestimate : ((scale m e).log2 : Int) - (scale 1 (-e)).log2 = m.log2 + e := by
    rw [scale_eq, scale_eq, log2_mul_two_pow hm, Nat.one_mul, Nat.log2_two_pow]
    omega
  unfold ratioLog
  rw [hestimate, if_neg]
  simp only [scale_eq, Nat.not_lt]
  calc 1 * 2 ^ (-e).toNat * 2 ^ (m.log2 + e).toNat
      = 2 ^ m.log2 * 2 ^ (e.toNat + (-(m.log2 + e)).toNat) := by
        rw [Nat.one_mul, ← Nat.pow_add, ← Nat.pow_add]
        congr 1
        omega
    _ ≤ m * 2 ^ (e.toNat + (-(m.log2 + e)).toNat) :=
        Nat.mul_le_mul_right _ (Nat.log2_self_le hm)
    _ = m * 2 ^ e.toNat * 2 ^ (-(m.log2 + e)).toNat := by
        rw [Nat.mul_assoc, ← Nat.pow_add]

/-- A quotient without a rest is not rounded. -/
theorem roundedQuotient_mul (q : Nat) {d : Nat} (hd : 0 < d) : roundedQuotient (q * d) d = q := by
  simp [roundedQuotient, Nat.mul_div_cancel q hd, hd]

theorem leastExponent_double : Precision.double.format.leastExponent = -1074 :=
  rfl

theorem infinity_double : Precision.double.format.infinity = 2047 * 2 ^ 52 :=
  rfl

/-- A magnitude of up to 53 bits is normalized at the step of its leading bit. -/
private theorem normalized_double {m n : Nat} (hm : m ≠ 0) (hbits : m < 2 ^ 53)
    : Normalized 52 (m.log2 + n - 52) (m * 2 ^ (n - (m.log2 + n - 52))) := by
  have hlog : m.log2 < 53 := (Nat.log2_lt hm).mpr hbits
  have htop : m.log2 + (n - (m.log2 + n - 52)) < 53 := by omega
  constructor
  · calc m * 2 ^ (n - (m.log2 + n - 52))
        < 2 ^ (m.log2 + 1) * 2 ^ (n - (m.log2 + n - 52)) :=
          Nat.mul_lt_mul_of_pos_right Nat.lt_log2_self (by positivity)
      _ ≤ 2 ^ 53 := by
          rw [← Nat.pow_add]
          exact Nat.pow_le_pow_right (by decide) (by omega)
  · by_cases hstep : m.log2 + n - 52 = 0
    · exact .inl hstep
    · refine .inr ?_
      calc 2 ^ 52 = 2 ^ m.log2 * 2 ^ (n - (m.log2 + n - 52)) := by
            rw [← Nat.pow_add]
            congr 1
            omega
        _ ≤ m * 2 ^ (n - (m.log2 + n - 52)) := Nat.mul_le_mul_right _ (Nat.log2_self_le hm)

/-- Double precision holds a magnitude of up to 53 bits between its least and its greatest
exponent, at the rank of the normalized form.
-/
theorem nearest_double {m : Nat} {e : Int} (hm : m ≠ 0) (hbits : m < 2 ^ 53) (hlow : -1074 ≤ e)
    (hhigh : m.log2 + e ≤ 1023)
    : ∃ u q,
        Normalized 52 u q
        ∧ q * 2 ^ u = m * 2 ^ (e + 1074).toNat
        ∧ Precision.double.format.nearest (scale m e) (scale 1 (-e)) = u * 2 ^ 52 + q
        ∧ u * 2 ^ 52 + q < Precision.double.format.infinity := by
  have hlog : m.log2 < 53 := (Nat.log2_lt hm).mpr hbits
  generalize hn : (e + 1074).toNat = n
  generalize hu : m.log2 + n - 52 = u
  have hnorm := normalized_double (n := n) hm hbits
  rw [hu] at hnorm
  have hunit : max Precision.double.format.leastExponent
      (ratioLog (scale m e) (scale 1 (-e)) - (Precision.double.format.fractionBits : Nat))
      = (u : Int) - 1074 := by
    rw [ratioLog_scale hm, leastExponent_double]
    change max (-1074 : Int) (m.log2 + e - 52) = _
    omega
  have hquotient : scale (scale m e) (-((u : Int) - 1074))
      = m * 2 ^ (n - u) * scale (scale 1 (-e)) ((u : Int) - 1074) := by
    simp only [scale_eq, Nat.one_mul, Nat.mul_assoc, ← Nat.pow_add]
    congr 2
    omega
  have hfinite : u * 2 ^ 52 + m * 2 ^ (n - u) < Precision.double.format.infinity := by
    have := hnorm.lt
    rw [infinity_double]
    omega
  refine ⟨u, m * 2 ^ (n - u), hnorm, ?_, ?_, hfinite⟩
  · rw [Nat.mul_assoc, ← Nat.pow_add]
    congr 2
    omega
  · have hnum : scale m e ≠ 0 := by
      rw [scale_eq]
      positivity
    have hden : 0 < scale (scale 1 (-e)) ((u : Int) - 1074) := by
      simp only [scale_eq]
      positivity
    unfold nearest
    simp only [hnum, ↓reduceIte, hunit, hquotient, roundedQuotient_mul _ hden]
    have hstep : ((u : Int) - 1074 - Precision.double.format.leastExponent).toNat = u := by
      rw [leastExponent_double]
      omega
    rw [hstep]
    exact Nat.min_eq_right hfinite.le

/-- A positive integer is not rounded to zero. -/
theorem nearest_double_pos {n : Nat} (hn : n ≠ 0)
    : 0 < Precision.double.format.nearest n 1 := by
  have hlog : -1 ≤ ratioLog n 1 := by
    unfold ratioLog
    simp only [show Nat.log2 1 = 0 from rfl]
    split <;> omega
  unfold nearest
  simp only [hn, ↓reduceIte]
  have hfractions : 0 < Precision.double.format.fractions := by decide
  refine Nat.lt_min.mpr ⟨by decide, Nat.add_pos_left (Nat.mul_pos ?_ hfractions) _⟩
  have hbits : (Precision.double.format.fractionBits : Int) = 52 := rfl
  rw [leastExponent_double, hbits]
  omega

/-- Double precision reaches as far as both floating precisions. -/
theorem exponent_bounds {p : Precision} {rank : Nat} (h : rank < p.format.infinity)
    : p.format.significand rank < 2 ^ 53
      ∧ -1074 ≤ p.format.exponent rank
      ∧ (p.format.significand rank).log2 + p.format.exponent rank ≤ 1023 := by
  have hnorm := p.format.normalized rank
  have hrank := p.format.rank_eq rank
  rw [exponent_eq]
  generalize p.format.step rank = u at *
  generalize p.format.significand rank = m at *
  have hlog {b : Nat} (hm : m < 2 ^ (b + 1)) : m.log2 ≤ b := by
    by_cases hzero : m = 0
    · simp [hzero]
    · exact Nat.le_of_lt_succ ((Nat.log2_lt hzero).mpr hm)
  obtain ⟨hlt, hle⟩ := hnorm
  have hbit := hlog hlt
  cases p with
  | single =>
      have hleast : Precision.single.format.leastExponent = -149 := rfl
      have hinf : Precision.single.format.infinity = 255 * 2 ^ 23 := rfl
      simp only [Precision.format, hleast] at *
      omega
  | double =>
      simp only [leastExponent_double, infinity_double] at *
      simp only [Precision.format] at *
      omega

end Format

end DynamicOps
