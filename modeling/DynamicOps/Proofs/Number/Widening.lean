import DynamicOps.Proofs.Number.Magnitude

/-!
Conversion to double precision. It is exact on both floating precisions, so converted numbers
compare as the numbers themselves, and it keeps the sign of integers.
-/

namespace DynamicOps

namespace Binary

/-- The rank in double precision of a magnitude of another precision. -/
def doubleRank (p : Precision) (rank : Nat) : Nat :=
  if rank = p.format.infinity then Precision.double.format.infinity
  else
    Precision.double.format.nearest
      (Format.scale (p.format.significand rank) (p.format.exponent rank))
      (Format.scale 1 (-p.format.exponent rank))

theorem doubleRank_zero (p : Precision) : doubleRank p 0 = 0 := by
  cases p <;> decide

/-- A finite rank keeps its magnitude in double precision, at the rank of its normalized form. -/
theorem doubleRank_eq {p : Precision} {rank : Nat} (h : rank < p.format.infinity)
    : ∃ u q,
        Format.Normalized 52 u q
        ∧ q * 2 ^ u = p.format.significand rank * 2 ^ (p.format.exponent rank + 1074).toNat
        ∧ doubleRank p rank = u * 2 ^ 52 + q
        ∧ u * 2 ^ 52 + q < Precision.double.format.infinity := by
  by_cases hm : p.format.significand rank = 0
  · have hrank : rank = 0 := by
      have hnorm := p.format.normalized rank
      have hsum := p.format.rank_eq rank
      rw [hm] at hnorm hsum
      have hbits : 0 < 2 ^ p.format.fractionBits := by positivity
      rw [hnorm.le.resolve_right (by omega)] at hsum
      simpa using hsum.symm
    subst hrank
    exact ⟨0, 0, ⟨by decide, .inl rfl⟩, by simp [hm], doubleRank_zero p, by decide⟩
  · obtain ⟨hbits, hlow, hhigh⟩ := Format.exponent_bounds h
    rw [doubleRank, if_neg h.ne]
    exact Format.nearest_double hm hbits hlow hhigh

/-- Ranks of one precision stay apart in double precision, by the normalized forms of both. -/
theorem doubleRank_injective {p : Precision} {a b : Nat} (ha : a ≤ p.format.infinity)
    (hb : b ≤ p.format.infinity) (h : doubleRank p a = doubleRank p b)
    : a = b := by
  have htop : doubleRank p p.format.infinity = Precision.double.format.infinity := if_pos rfl
  rcases Nat.lt_or_eq_of_le ha with ha | rfl
  · obtain ⟨u, q, hu, hmagnitude, hrank, hlt⟩ := doubleRank_eq ha
    rcases Nat.lt_or_eq_of_le hb with hb | rfl
    · obtain ⟨v, r, hv, hmagnitude', hrank', _⟩ := doubleRank_eq hb
      obtain ⟨rfl, rfl⟩ := hu.eq_of_rank_eq hv (by omega)
      have hscale (rank : Nat)
          : 2 ^ (p.format.exponent rank + 1074).toNat
            = 2 ^ p.format.step rank * 2 ^ (p.format.leastExponent + 1074).toNat := by
        have hleast : -1074 ≤ p.format.leastExponent := by cases p <;> decide
        rw [← Nat.pow_add, Format.exponent_eq]
        congr 1
        omega
      rw [hmagnitude, hscale, hscale, ← Nat.mul_assoc, ← Nat.mul_assoc] at hmagnitude'
      obtain ⟨hstep, hsignificand⟩ := (p.format.normalized a).eq_of_magnitude_eq
        (p.format.normalized b) (Nat.eq_of_mul_eq_mul_right (by positivity) hmagnitude')
      rw [← p.format.rank_eq a, ← p.format.rank_eq b, hstep, hsignificand]
    · omega
  · rcases Nat.lt_or_eq_of_le hb with hb | rfl
    · obtain ⟨_, _, _, _, hrank, hlt⟩ := doubleRank_eq hb
      omega
    · rfl

theorem doubleRank_le (p : Precision) {rank : Nat} (h : rank ≤ p.format.infinity)
    : doubleRank p rank ≤ Precision.double.format.infinity := by
  rcases Nat.lt_or_eq_of_le h with h | rfl
  · obtain ⟨_, _, _, _, hrank, hlt⟩ := doubleRank_eq h
    omega
  · exact (if_pos rfl).le

/-- A number's place in its format lies between the infinities. -/
theorem natAbs_le_of_key? {f : Format} {x : Binary f} {k : Int} (h : x.key? = some k)
    : k.natAbs ≤ f.infinity := by
  cases x with
  | nan => cases h
  | number negative rank hrank =>
      cases negative <;> simp only [key?, Option.some.injEq] at h <;> subst h <;> simpa using hrank

theorem key?_ofRank {f : Format} (negative : Bool) {rank : Nat} (h : rank ≤ f.infinity)
    : (ofRank negative rank : Binary f).key?
      = some (if negative then -(rank : Int) else rank) := by
  simp [ofRank, key?, Nat.min_eq_left h]

/-- The place in double precision of a place in another precision. -/
def doubleKey (p : Precision) (k : Int) : Int :=
  k.sign * doubleRank p k.natAbs

theorem natAbs_doubleKey (p : Precision) (k : Int)
    : (doubleKey p k).natAbs = doubleRank p k.natAbs := by
  by_cases h : k = 0
  · simp [h, doubleKey, doubleRank_zero]
  · simp [doubleKey, Int.natAbs_mul, Int.natAbs_sign_of_ne_zero h]

/-- Places of one precision stay apart in double precision, on either side of zero. -/
theorem doubleKey_injective {p : Precision} {a b : Int} (ha : a.natAbs ≤ p.format.infinity)
    (hb : b.natAbs ≤ p.format.infinity) (h : doubleKey p a = doubleKey p b)
    : a = b := by
  have habs : a.natAbs = b.natAbs := by
    refine doubleRank_injective ha hb ?_
    rw [← natAbs_doubleKey, h, natAbs_doubleKey]
  rcases Int.natAbs_eq_natAbs_iff.mp habs with hab | hab
  · exact hab
  · rw [hab, doubleKey, doubleKey, Int.sign_neg, Int.natAbs_neg, Int.neg_mul] at h
    have hzero : b.sign * (doubleRank p b.natAbs : Int) = 0 := by omega
    rcases Int.mul_eq_zero.mp hzero with hsign | hrank
    · rw [hab, Int.sign_eq_zero_iff_zero.mp hsign]
      rfl
    · have : b.natAbs = 0 := doubleRank_injective hb (Nat.zero_le _)
        ((Int.natCast_eq_zero.mp hrank).trans (doubleRank_zero p).symm)
      omega

/-- A converted number has the place in double precision of the number's place. -/
theorem key?_convert {p : Precision} (x : Binary p.format)
    : (x.convert : Binary64).key? = x.key?.map (doubleKey p) := by
  cases x with
  | nan => rfl
  | number negative rank hrank =>
      have hconvert : (number negative rank hrank : Binary p.format).convert
          = (ofRank negative (doubleRank p rank) : Binary64) := by
        simp only [convert, doubleRank, ofScaled, ofRatio]
        split <;> rfl
      rw [hconvert, key?_ofRank negative (doubleRank_le p hrank)]
      by_cases hzero : rank = 0
      · subst hzero
        cases negative <;> simp [key?, doubleKey, doubleRank_zero]
      · have hsign : (rank : Int).sign = 1 := Int.sign_eq_one_of_pos (by omega)
        cases negative <;> simp [key?, doubleKey, hsign]

/-- Numbers are equal when they have the same place in their format. -/
theorem equal_iff {f : Format} (x y : Binary f)
    : x.equal y = true ↔ ∃ k, x.key? = some k ∧ y.key? = some k := by
  unfold equal
  cases x.key? <;> cases y.key? <;> simp [eq_comm]

/-- Converted numbers are equal as the numbers themselves. -/
theorem equal_convert {p : Precision} (x y : Binary p.format)
    : (x.convert : Binary64).equal y.convert = x.equal y := by
  unfold equal
  rw [key?_convert, key?_convert]
  cases hx : x.key? with
  | none => rfl
  | some a =>
      cases hy : y.key? with
      | none => rfl
      | some b =>
          have hiff : doubleKey p a = doubleKey p b ↔ a = b :=
            ⟨doubleKey_injective (natAbs_le_of_key? hx) (natAbs_le_of_key? hy), congrArg _⟩
          simp [hiff]

/-- The double precision number of an integer lies on the integer's side of zero. -/
theorem exists_key?_ofInt (n : Int)
    : ∃ k, (ofInt n : Binary64).key? = some k ∧ (0 < n → 0 < k) ∧ (n < 0 → k < 0) := by
  have hle : Precision.double.format.nearest n.natAbs 1 ≤ Precision.double.format.infinity := by
    unfold Format.nearest
    split
    · exact Nat.zero_le _
    · exact Nat.min_le_left ..
  refine ⟨_, key?_ofRank _ hle, fun hn => ?_, fun hn => ?_⟩
  · have := Format.nearest_double_pos (n := n.natAbs) (by omega)
    rw [if_neg (by simpa using hn.le)]
    omega
  · have := Format.nearest_double_pos (n := n.natAbs) (by omega)
    rw [if_pos (by simpa using hn)]
    omega

end Binary

end DynamicOps
