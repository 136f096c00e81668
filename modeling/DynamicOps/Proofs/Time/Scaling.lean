import DynamicOps.Proofs.Arithmetic.Outcomes
import DynamicOps.Proofs.Time.Exactness

/-!
Scaling of durations by integers. A duration is multiplied as a word of nanoseconds: long durations
saturate and large products wrap around. Where neither happens the product is exact, and it is the
sum of as many copies of the duration. Scaled by one, exactly the durations that fit a word stay as
they are.
-/

namespace DynamicOps

variable {ε : Type}

namespace Word

/-- The integer is that of a 64-bit signed word. -/
def Fits (n : Int) : Prop :=
  (IntKind.signed .w64).least ≤ n ∧ n ≤ (IntKind.signed .w64).greatest

instance (n : Int) : Decidable (Fits n) :=
  inferInstanceAs (Decidable (_ ∧ _))

theorem val_saturate_of_fits {n : Int} (h : Fits n) : (saturate n).val = n := by
  obtain ⟨hleast, hgreatest⟩ := h
  simp only [IntKind.least, IntKind.greatest, Width.count] at hleast hgreatest
  simp only [saturate]
  omega

/-- A product that fits a word is exact, also by an integer that wraps around itself. -/
theorem val_multiply_wrap_of_fits {w : Word64} {n : Int} (h : Fits (w.val * n))
    : (w.multiply (wrap n)).val = w.val * n :=
  val_eq_of_modEq h.1 h.2 ((val_wrap_modEq _).trans (Int.ModEq.rfl.mul (val_wrap_modEq n)))

end Word

variable [Extension ε]

theorem Duration.mem_pairwiseKinds
    : Kind.duration ∈ (Operator.compute .multiply).pairwiseKinds := by
  decide

/-- The product of two scalars that are promoted to durations is that of their words. -/
theorem apply_multiply_of_promote {s t : Scalar} {v w : Word64}
    (hs : s.kind ∈ (Operator.compute .multiply).pairwiseKinds)
    (ht : t.kind ∈ (Operator.compute .multiply).pairwiseKinds)
    (hpromote : promote (.compute .multiply) s.kind t.kind = some .duration)
    (hv : s.toWord? = some v) (hw : t.toWord? = some w)
    : apply (.compute .multiply) (.scalar s : Value ε) (.scalar t)
      = .ok (.scalar ⟨.duration, .ofWord (v.multiply w)⟩) := by
  have hcompute : (Body.promote .duration).compute? .multiply s t
      = some (.ok ⟨.duration, .ofWord (v.multiply w)⟩) := by
    simp [Body.compute?, Arithmetic.promoted?, Arithmetic.onWords?, hv, hw, Except.map]
  exact apply_compute_of_performs (.promoted hs ht hpromote) hcompute

/-- A duration is scaled as a word, which saturates, by an integer that wraps around. -/
theorem apply_multiply_duration {k : IntKind} (d : Duration) (x : Word k)
    : apply (.compute .multiply) (.scalar ⟨.duration, d⟩ : Value ε) (.scalar ⟨.int k, x⟩)
      = .ok (.scalar ⟨.duration, .ofWord (d.toWord.multiply (.wrap x.val))⟩) :=
  apply_multiply_of_promote Duration.mem_pairwiseKinds
    (Arithmetic.mem_pairwiseKinds _ rfl) rfl rfl rfl

theorem apply_multiply_duration_swapped {k : IntKind} (d : Duration) (x : Word k)
    : apply (.compute .multiply) (.scalar ⟨.int k, x⟩ : Value ε) (.scalar ⟨.duration, d⟩)
      = .ok (.scalar ⟨.duration, .ofWord (d.toWord.multiply (.wrap x.val))⟩) := by
  rw [Word.multiply_comm]
  exact apply_multiply_of_promote (Arithmetic.mem_pairwiseKinds _ rfl)
    Duration.mem_pairwiseKinds rfl rfl rfl

/-- The sum of some copies of a duration, added to the empty one after another. -/
def repeatedSum (d : Duration) : Nat → Except OpError (Value ε)
  | 0 => .ok (.scalar ⟨.duration, .zero⟩)
  | n + 1 => repeatedSum d n >>= fun s => apply (.compute .add) s (.scalar ⟨.duration, d⟩)

/-- The multiples of a duration up to one in range are in range, since they lie on the way to it. -/
theorem Duration.inRange_of_le {d : Duration} {m n : Nat} (hle : m ≤ n)
    (h : InRange (n * d.nanos))
    : InRange (m * d.nanos) := by
  have hlimit : 0 < limit := by decide
  have hcast : (m : Int) ≤ n := Int.ofNat_le.mpr hle
  obtain ⟨hlower, hupper⟩ := h
  rcases Int.le_total 0 d.nanos with hd | hd
  · have := Int.mul_nonneg (Int.natCast_nonneg m) hd
    have := Int.mul_le_mul_of_nonneg_right hcast hd
    exact ⟨by omega, by omega⟩
  · have := Int.mul_nonpos_of_nonneg_of_nonpos (Int.natCast_nonneg m) hd
    have := Int.mul_le_mul_of_nonpos_right hcast hd
    exact ⟨by omega, by omega⟩

/-- Repeated sums are exact, by induction on the number of copies: the sums move in one direction,
so one that overflows is not on the way to any in range.
-/
theorem durationOf_repeatedSum (d : Duration) (n : Nat)
    : DurationOf .add (n * d.nanos) (repeatedSum d n : Except OpError (Value ε)) := by
  induction n with
  | zero =>
      rw [Int.natCast_zero, Int.zero_mul]
      exact ⟨fun _ => ⟨.zero, rfl, rfl⟩, fun h => absurd (by decide) h⟩
  | succ n ih =>
      refine ih.bind (Duration.inRange_of_le (Nat.le_succ n)) fun s hs => ?_
      rw [Int.natCast_succ, Int.add_mul, Int.one_mul, ← hs]
      exact durationOf_add s d

/-- A duration scaled by an integer is another one, in either order of the operands. By an integer
that is not negative it is the sum of as many copies, and no sum on the way to it overflows.
-/
structure Scaling (ε : Type) [Extension ε] (d : Duration) {k : IntKind} (x : Word k)
    (r : Duration) : Prop where
  nanos : r.nanos = x.val * d.nanos
  scaled
    : apply (.compute .multiply) (.scalar ⟨.duration, d⟩ : Value ε) (.scalar ⟨.int k, x⟩)
      = .ok (.scalar ⟨.duration, r⟩)
  scaledBy
    : apply (.compute .multiply) (.scalar ⟨.int k, x⟩ : Value ε) (.scalar ⟨.duration, d⟩)
      = .ok (.scalar ⟨.duration, r⟩)
  summed : ∀ n : Nat, x.val = n → (repeatedSum d n : Except OpError (Value ε))
    = .ok (.scalar ⟨.duration, r⟩)
  partialSums : ∀ n m : Nat, x.val = n → m ≤ n →
    ∃ s : Duration, s.nanos = m * d.nanos
      ∧ (repeatedSum d m : Except OpError (Value ε)) = .ok (.scalar ⟨.duration, s⟩)

/-- Scaling is exact where a duration and its product fit words of nanoseconds. -/
theorem scaling_exact {k : IntKind} {d : Duration} {x : Word k} (hd : Word.Fits d.nanos)
    (hproduct : Word.Fits (x.val * d.nanos))
    : ∃ r : Duration, Scaling ε d x r := by
  rw [Int.mul_comm] at hproduct
  have hword : d.toWord.val = d.nanos := Word.val_saturate_of_fits hd
  have hnanos : (Duration.ofWord (d.toWord.multiply (.wrap x.val))).nanos = x.val * d.nanos := by
    rw [Int.mul_comm, ← hword]
    exact Word.val_multiply_wrap_of_fits (hword.symm ▸ hproduct)
  generalize hr : Duration.ofWord (d.toWord.multiply (.wrap x.val)) = r at hnanos
  have hrange : Duration.InRange (x.val * d.nanos) := hnanos ▸ ⟨r.lower, r.upper⟩
  exact ⟨r,
    { nanos := hnanos
      scaled := hr ▸ apply_multiply_duration d x
      scaledBy := hr ▸ apply_multiply_duration_swapped d x
      summed n hn := (durationOf_repeatedSum d n).eq_ok (hn ▸ hnanos)
      partialSums n m hn hle :=
        (durationOf_repeatedSum d m).inRange (Duration.inRange_of_le hle (hn ▸ hrange)) }⟩

/-- Three times a second and a half towards the past, by a product and by sums. -/
theorem scaling_exact_thrice
    : Word.Fits (-1500000000) ∧ Word.Fits (3 * -1500000000)
      ∧ apply (.compute .multiply)
          (.scalar ⟨.int (.unsigned .w8), ⟨3, by decide, by decide⟩⟩ : Value Labelled)
          (.scalar ⟨.duration, ⟨-1500000000, by decide, by decide⟩⟩)
        = .ok (.scalar ⟨.duration, ⟨-4500000000, by decide, by decide⟩⟩)
      ∧ (repeatedSum ⟨-1500000000, by decide, by decide⟩ 3 : Except OpError (Value Labelled))
        = .ok (.scalar ⟨.duration, ⟨-4500000000, by decide, by decide⟩⟩) := by
  obtain ⟨⟨r, hlower, hupper⟩, hscaling⟩ :=
    @scaling_exact Labelled _ (.unsigned .w8) ⟨-1500000000, by decide, by decide⟩
      ⟨3, by decide, by decide⟩ (by decide) (by decide)
  obtain rfl : r = -4500000000 := hscaling.nanos
  exact ⟨by decide, by decide, hscaling.scaledBy, hscaling.summed 3 rfl⟩

/-- A duration by way of its word of nanoseconds. -/
def Duration.saturated (d : Duration) : Duration :=
  .ofWord d.toWord

theorem Duration.nanos_saturated (d : Duration)
    : d.saturated.nanos = max (-9223372036854775808) (min d.nanos 9223372036854775807) :=
  rfl

/-- A duration survives as a word of nanoseconds exactly if it fits one. -/
theorem Duration.saturated_eq_self_iff {d : Duration} : d.saturated = d ↔ Word.Fits d.nanos := by
  have hnanos : d.saturated = d ↔ d.saturated.nanos = d.nanos := by
    rw [Duration.mk.injEq]
  rw [hnanos, nanos_saturated]
  simp only [Word.Fits, IntKind.least, IntKind.greatest, Width.count]
  omega

theorem Word.multiply_wrap_one (w : Word64) : w.multiply (wrap 1) = w := by
  have hfits : Fits (w.val * 1) := (Int.mul_one w.val).symm ▸ ⟨w.least_le, w.le_greatest⟩
  rw [mk.injEq, val_multiply_wrap_of_fits hfits, Int.mul_one]

/-- A duration scaled by one, in either order of the operands, is the duration of its word: the
duration itself exactly if its nanoseconds fit a word, and the nearest duration that does otherwise.
-/
theorem scaled_by_one_iff_fits {k : IntKind} (d : Duration) {one : Word k} (h : one.val = 1)
    : apply (.compute .multiply) (.scalar ⟨.duration, d⟩ : Value ε) (.scalar ⟨.int k, one⟩)
        = .ok (.scalar ⟨.duration, d.saturated⟩)
      ∧ apply (.compute .multiply) (.scalar ⟨.int k, one⟩ : Value ε) (.scalar ⟨.duration, d⟩)
        = .ok (.scalar ⟨.duration, d.saturated⟩)
      ∧ d.saturated.nanos = max (-9223372036854775808) (min d.nanos 9223372036854775807)
      ∧ (d.saturated = d ↔ Word.Fits d.nanos) := by
  have hword : d.toWord.multiply (.wrap one.val) = d.toWord := by
    rw [h, Word.multiply_wrap_one]
  refine ⟨?_, ?_, Duration.nanos_saturated d, Duration.saturated_eq_self_iff⟩
  · rw [apply_multiply_duration, hword]
    rfl
  · rw [apply_multiply_duration_swapped, hword]
    rfl

/-- The longest duration towards the past that fits a word of nanoseconds is kept by one. -/
theorem scaled_by_one_iff_fits_past
    : apply (.compute .multiply)
        (.scalar ⟨.duration, ⟨-9223372036854775808, by decide, by decide⟩⟩ : Value Labelled)
        (.scalar ⟨.int (.unsigned .w8), ⟨1, by decide, by decide⟩⟩)
      = .ok (.scalar ⟨.duration, ⟨-9223372036854775808, by decide, by decide⟩⟩) := by
  obtain ⟨hscaled, _, _, hself⟩ :=
    @scaled_by_one_iff_fits Labelled _ (.unsigned .w8) ⟨-9223372036854775808, by decide, by decide⟩
      ⟨1, by decide, by decide⟩ rfl
  rw [hscaled, hself.mpr (by decide)]

/-- The longest duration of all is shortened by one. -/
theorem longest_duration_shortened
    : apply (.compute .multiply)
          (.scalar ⟨.duration, ⟨9223372036854775807000000, by decide, by decide⟩⟩ : Value Labelled)
          (.scalar ⟨.int (.unsigned .w8), ⟨1, by decide, by decide⟩⟩)
        = .ok (.scalar ⟨.duration, ⟨9223372036854775807, by decide, by decide⟩⟩)
      ∧ apply (.compute .multiply)
          (.scalar ⟨.duration, ⟨9223372036854775807000000, by decide, by decide⟩⟩ : Value Labelled)
          (.scalar ⟨.int (.unsigned .w8), ⟨1, by decide, by decide⟩⟩)
        ≠ .ok (.scalar ⟨.duration, ⟨9223372036854775807000000, by decide, by decide⟩⟩) := by
  have hscaled := @apply_multiply_duration Labelled _ (.unsigned .w8)
    ⟨9223372036854775807000000, by decide, by decide⟩ ⟨1, by decide, by decide⟩
  have hword : Duration.toWord ⟨9223372036854775807000000, by decide, by decide⟩
      = ⟨9223372036854775807, by decide, by decide⟩ := by decide
  rw [hword, Word.multiply_wrap_one] at hscaled
  refine ⟨hscaled, ?_⟩
  rw [hscaled]
  simp [Duration.ofWord]

end DynamicOps
