import DynamicOps.Literal.Basic
import DynamicOps.Proofs.Ordering.Integers
import DynamicOps.Proofs.Time.Exactness

/-!
Differences of instants against the order of instants. Leap seconds are counted by the seconds of
the day, so a difference has the sign that the order demands unless a leap second ends a day and
runs past the other instant, which lies in the first second of the next day.
-/

namespace DynamicOps

namespace Instant

variable {x y : Instant}

/-- The place of an instant in the order of instants, with room for a leap second in every second.
-/
def ordinal (t : Instant) : Int :=
  t.secs * 2000000000 + t.nanos

/-- A leap second that ends a day runs past an instant in the first second of the next day: that
instant is not later in its second than the leap second has come.
-/
def RunsPast (x y : Instant) : Prop :=
  x.secondOfDay = 86399 ∧ y.secs = x.secs + 1 ∧ y.nanos + 1000000000 ≤ x.nanos

instance (x y : Instant) : Decidable (RunsPast x y) :=
  inferInstanceAs (Decidable (_ ∧ _))

theorem less_iff_ordinal : x.less y = true ↔ x.ordinal < y.ordinal := by
  have := x.nanos_lt
  have := y.nanos_lt
  simp only [less, ordinal, Bool.or_eq_true, Bool.and_eq_true, decide_eq_true_eq]
  omega

theorem eq_iff_ordinal : x = y ↔ x.ordinal = y.ordinal := by
  refine ⟨congrArg ordinal, fun h => ?_⟩
  obtain ⟨secs, nanos, _, _, hnanos, _⟩ := x
  obtain ⟨secs', nanos', _, _, hnanos', _⟩ := y
  simp only [ordinal] at h
  simp only [mk.injEq]
  omega

/-- A leap second counts for the distance to an instant that is later in its day. -/
theorem leapAdjustment_cases (x y : Instant)
    : y.secondOfDay < x.secondOfDay ∧ 1000000000 ≤ y.nanos ∧ leapAdjustment x y = 1
      ∨ x.secondOfDay < y.secondOfDay ∧ 1000000000 ≤ x.nanos ∧ leapAdjustment x y = -1
      ∨ (y.secondOfDay < x.secondOfDay → y.nanos < 1000000000)
        ∧ (x.secondOfDay < y.secondOfDay → x.nanos < 1000000000)
        ∧ leapAdjustment x y = 0 := by
  have hadjustment
      : leapAdjustment x y
        = if y.secondOfDay < x.secondOfDay ∧ 1000000000 ≤ y.nanos then 1
          else if x.secondOfDay < y.secondOfDay ∧ 1000000000 ≤ x.nanos then -1
          else 0 := by
    simp [leapAdjustment, isLeap]
  rw [hadjustment]
  split_ifs <;> omega

theorem distance_swap (x y : Instant) : distance y x = -distance x y := by
  have := leapAdjustment_cases x y
  have := leapAdjustment_cases y x
  unfold distance
  omega

/-- A leap second that runs past an instant is not counted, and its fraction is what remains. -/
theorem distance_of_runsPast (h : RunsPast x y)
    : distance x y = x.nanos - 1000000000 - y.nanos := by
  obtain ⟨hday, hsecs, hnanos⟩ := h
  have := x.nanos_lt
  have := leapAdjustment_cases x y
  unfold distance
  unfold secondOfDay at *
  omega

theorem distance_nonneg_of_runsPast (h : RunsPast x y) : 0 ≤ distance x y := by
  rw [distance_of_runsPast h]
  have := h.2.2
  omega

/-- An earlier instant has a negative distance to a later one that it does not run past. Within a day
its leap second is counted. Into a later day it may not be, or that of the later instant may be, but
then more than a second lies between them.
-/
theorem distance_neg (hless : x.ordinal < y.ordinal) (h : ¬ RunsPast x y) : distance x y < 0 := by
  have := x.nanos_lt
  have := y.nanos_lt
  have := x.leap
  have := y.leap
  have := leapAdjustment_cases x y
  unfold distance
  unfold ordinal at hless
  unfold RunsPast at h
  unfold secondOfDay at *
  omega

theorem ordinal_lt_of_runsPast (h : RunsPast x y) : x.ordinal < y.ordinal := by
  obtain ⟨_, hsecs, _⟩ := h
  have := x.nanos_lt
  unfold ordinal
  omega

/-- A distance has the sign of the order exactly unless one instant runs past the other: an instant
that runs past another one is earlier, but its distance is not negative.
-/
theorem distance_follows_order_iff (x y : Instant)
    : (distance x y < 0 ↔ x.ordinal < y.ordinal) ∧ (0 < distance x y ↔ y.ordinal < x.ordinal)
      ↔ ¬ (RunsPast x y ∨ RunsPast y x) := by
  have hswap := distance_swap x y
  constructor
  · rintro hsign (h | h)
    all_goals
      have hless := ordinal_lt_of_runsPast h
      have hnonneg := distance_nonneg_of_runsPast h
      omega
  · intro h
    obtain ⟨hxy, hyx⟩ := not_or.mp h
    rcases lt_trichotomy x.ordinal y.ordinal with hless | heq | hmore
    · have := distance_neg hless hxy
      omega
    · obtain rfl := eq_iff_ordinal.mpr heq
      omega
    · have := distance_neg hmore hyx
      omega

end Instant

variable {ε : Type} [Extension ε]

open Instant

theorem comparedAs_instants (x y : Instant)
    : ComparedAs (.scalar ⟨.instant, x⟩ : Value ε) (.scalar ⟨.instant, y⟩) x.ordinal y.ordinal := by
  have hrelate (rel : PayloadRelation)
      : Body.native.relate? rel ⟨.instant, x⟩ ⟨.instant, y⟩ = some (rel .instant x y) := by
    simp [Body.relate?, Scalar.related?]
  have hcomparisons : Comparisons (.scalar ⟨.instant, x⟩ : Value ε) (.scalar ⟨.instant, y⟩)
      (x.less y) (x = y) (y.less x) :=
    comparisons_of_relate? (k := .instant) (by rfl) hrelate
  have hless (x y : Instant) : x.less y = decide (x.ordinal < y.ordinal) := by
    rw [Bool.eq_iff_iff, less_iff_ordinal, decide_eq_true_iff]
  rwa [hless x, hless y, decide_eq_decide.mpr eq_iff_ordinal] at hcomparisons

/-- The difference of two instants is a negative, an empty, or a positive duration as the first one
is less than, equal to, or more than the second, exactly unless one of them runs past the other.
Where it does, it is less, but the difference is what its fraction exceeds the other one's by.
-/
theorem difference_follows_order_iff (x y : Instant)
    : ∃ d : Duration,
        apply (.compute .subtract) (.scalar ⟨.instant, x⟩ : Value ε) (.scalar ⟨.instant, y⟩)
            = .ok (.scalar ⟨.duration, d⟩)
        ∧ (ComparedAs (.scalar ⟨.instant, x⟩ : Value ε) (.scalar ⟨.instant, y⟩) d.nanos 0
            ↔ ¬ (RunsPast x y ∨ RunsPast y x))
        ∧ (RunsPast x y →
            Below (.scalar ⟨.instant, x⟩ : Value ε) (.scalar ⟨.instant, y⟩)
            ∧ d.nanos = x.nanos - 1000000000 - y.nanos)
        ∧ (RunsPast y x →
            Below (.scalar ⟨.instant, y⟩ : Value ε) (.scalar ⟨.instant, x⟩)
            ∧ d.nanos = x.nanos + 1000000000 - y.nanos) := by
  have hbelow {x y : Instant} (h : RunsPast x y)
      : Below (.scalar ⟨.instant, x⟩ : Value ε) (.scalar ⟨.instant, y⟩) := by
    rw [Below, (comparedAs_instants x y).less, decide_eq_true (ordinal_lt_of_runsPast h)]
  have hnanos : (x.elapsed y).nanos = distance x y := rfl
  refine ⟨x.elapsed y, apply_subtract_instants x y, ?_, fun h => ⟨hbelow h, ?_⟩,
    fun h => ⟨hbelow h, ?_⟩⟩
  · rw [(comparedAs_instants x y).iff_order, hnanos]
    exact distance_follows_order_iff x y
  · exact distance_of_runsPast h
  · have := distance_of_runsPast h
    have := distance_swap x y
    omega

/-- The leap second that ended the year 2016, at some nanoseconds after its start. -/
def Instant.lastOf2016 (fraction : Nat) (h : fraction < 1000000000) : Instant :=
  ⟨1483228799, 1000000000 + fraction, by decide, by decide, by omega, fun _ => by decide⟩

/-- The start of the year 2017. -/
def Instant.firstOf2017 : Instant :=
  ⟨1483228800, 0, by decide, by decide, by decide, by decide⟩

/-- The last second of 2016 is less than the start of 2017, but has an empty difference to it. -/
theorem difference_follows_order_iff_empty
    : RunsPast (lastOf2016 0 (by decide)) firstOf2017
      ∧ ∃ d : Duration,
          apply (.compute .subtract) (.scalar ⟨.instant, lastOf2016 0 (by decide)⟩ : Value Labelled)
              (.scalar ⟨.instant, firstOf2017⟩)
            = .ok (.scalar ⟨.duration, d⟩)
          ∧ d.nanos = 0 := by
  have hpast : RunsPast (lastOf2016 0 (by decide)) firstOf2017 := by decide
  obtain ⟨d, hd, _, hleft, _⟩ :=
    @difference_follows_order_iff Labelled _ (lastOf2016 0 (by decide)) firstOf2017
  exact ⟨hpast, d, hd, (hleft hpast).2⟩

/-- In the middle of the last second of 2016 it is before the start of 2017, but the difference to
that is positive.
-/
theorem leap_second_past_midnight
    : Literal.parse "instant:2016-12-31T23:59:60.5Z"
        = .ok (.scalar ⟨.instant, lastOf2016 500000000 (by decide)⟩ : Value Labelled)
      ∧ Literal.parse "instant:2017-01-01T00:00:00Z"
        = .ok (.scalar ⟨.instant, firstOf2017⟩ : Value Labelled)
      ∧ apply (.order .less)
          (.scalar ⟨.instant, lastOf2016 500000000 (by decide)⟩ : Value Labelled)
          (.scalar ⟨.instant, firstOf2017⟩)
        = .ok (.ofBool true)
      ∧ apply (.compute .subtract)
          (.scalar ⟨.instant, lastOf2016 500000000 (by decide)⟩ : Value Labelled)
          (.scalar ⟨.instant, firstOf2017⟩)
        = .ok (.scalar ⟨.duration, ⟨500000000, by decide, by decide⟩⟩)
      ∧ ¬ ComparedAs (.scalar ⟨.instant, lastOf2016 500000000 (by decide)⟩ : Value Labelled)
          (.scalar ⟨.instant, firstOf2017⟩) 500000000 0 := by
  have hcompared :=
    @comparedAs_instants Labelled _ (lastOf2016 500000000 (by decide)) firstOf2017
  refine ⟨rfl, rfl, hcompared.less, apply_subtract_instants _ _, ?_⟩
  rw [hcompared.iff_order]
  decide

end DynamicOps
