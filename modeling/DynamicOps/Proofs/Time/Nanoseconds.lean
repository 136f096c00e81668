import DynamicOps.Time.Calendar
import DynamicOps.Time.Instant

/-!
Instants and durations as numbers of nanoseconds. Outside leap seconds an instant is the nanoseconds
since the start of 1970. Time arithmetic computes with seconds and nanoseconds apart and carries
between them, which comes to the arithmetic of integers, at the ends of the ranges too.
-/

namespace DynamicOps

namespace Duration

/-- The nanoseconds belong to a duration. -/
def InRange (n : Int) : Prop :=
  -limit ≤ n ∧ n ≤ limit

instance (n : Int) : Decidable (InRange n) :=
  inferInstanceAs (Decidable (_ ∧ _))

theorem ofNanos?_eq_some_iff {n : Int} {d : Duration} : ofNanos? n = some d ↔ d.nanos = n := by
  obtain ⟨nanos, hlower, hupper⟩ := d
  rw [ofNanos?]
  split
  · simp [eq_comm]
  next h =>
    refine iff_of_false (by simp) ?_
    rintro rfl
    exact h ⟨hlower, hupper⟩

theorem isSome_ofNanos?_iff {n : Int} : (ofNanos? n).isSome = true ↔ InRange n := by
  rw [ofNanos?]
  split
  next h => exact iff_of_true rfl h
  next h => exact iff_of_false (by simp) h

theorem ofParts?_eq_ofNanos? {seconds rest : Int} (hrest : 0 ≤ rest) (hlt : rest < 1000000000)
    : ofParts? seconds rest = ofNanos? (seconds * 1000000000 + rest) := by
  ext d
  rw [ofNanos?_eq_some_iff, ofParts?]
  obtain ⟨nanos, hlower, hupper⟩ := d
  split
  · simp [eq_comm]
  next h =>
    refine iff_of_false (by simp) ?_
    rintro rfl
    exact h (by omega)

/-- A carry leaves the nanoseconds in total as they are. -/
theorem carried?_eq_ofNanos? {seconds rest : Int} (hlower : -1000000000 ≤ rest)
    (hupper : rest < 2000000000)
    : carried? seconds rest = ofNanos? (seconds * 1000000000 + rest) := by
  rw [carried?]
  split
  next =>
    rw [ofParts?_eq_ofNanos? (by omega) (by omega)]
    congr 1
    omega
  next =>
    split
    next =>
      rw [ofParts?_eq_ofNanos? (by omega) (by omega)]
      congr 1
      omega
    next => exact ofParts?_eq_ofNanos? (by omega) (by omega)

/-- Part by part, durations are added as their nanoseconds are. -/
theorem add?_eq_ofNanos? (d e : Duration) : d.add? e = ofNanos? (d.nanos + e.nanos) := by
  unfold add? seconds rest
  rw [carried?_eq_ofNanos? (by omega) (by omega)]
  congr 1
  omega

theorem add?_eq_some_iff {d e sum : Duration}
    : d.add? e = some sum ↔ sum.nanos = d.nanos + e.nanos := by
  rw [add?_eq_ofNanos?, ofNanos?_eq_some_iff]

/-- Part by part, durations are subtracted as their nanoseconds are. -/
theorem subtract?_eq_ofNanos? (d e : Duration) : d.subtract? e = ofNanos? (d.nanos - e.nanos) := by
  unfold subtract? seconds rest
  rw [carried?_eq_ofNanos? (by omega) (by omega)]
  congr 1
  omega

end Duration

namespace Instant

/-- The nanoseconds since the start of 1970; a leap second goes on after the second before it. -/
def total (t : Instant) : Int :=
  t.secs * 1000000000 + t.nanos

/-- The first nanosecond of the year -262143. -/
def first : Int :=
  Date.toDays ⟨-262143, 1, 1⟩ * 86400 * 1000000000

/-- The last nanosecond of the year 262142. -/
def last : Int :=
  Date.toDays ⟨262143, 1, 1⟩ * 86400 * 1000000000 - 1

/-- The nanoseconds belong to an instant outside leap seconds. -/
def InRange (n : Int) : Prop :=
  first ≤ n ∧ n ≤ last

instance (n : Int) : Decidable (InRange n) :=
  inferInstanceAs (Decidable (_ ∧ _))

theorem inRange_iff {n : Int}
    : InRange n ↔ -8334601228800000000000 ≤ n ∧ n ≤ 8210266876799999999999 := by
  have hfirst : first = -8334601228800000000000 := by decide
  have hlast : last = 8210266876799999999999 := by decide
  rw [InRange, hfirst, hlast]

theorem isLeap_eq_false_iff {t : Instant} : t.isLeap = false ↔ t.nanos < 1000000000 := by
  simp [isLeap]

/-- The instant outside leap seconds at a number of nanoseconds, if it is in range. -/
def ofNanos? (n : Int) : Option Instant :=
  ofParts? (n / 1000000000) (n % 1000000000).toNat

/-- The instant is outside leap seconds and has a number of nanoseconds. -/
def At (t : Instant) (n : Int) : Prop :=
  t.isLeap = false ∧ t.total = n

theorem At.inRange {t : Instant} {n : Int} (h : t.At n) : InRange n := by
  obtain ⟨hordinary, rfl⟩ := h
  have := isLeap_eq_false_iff.mp hordinary
  have := t.lower
  have := t.upper
  rw [inRange_iff, total]
  omega

/-- Outside leap seconds an instant is its nanoseconds. -/
theorem At.unique {t u : Instant} {n : Int} (ht : t.At n) (hu : u.At n) : t = u := by
  obtain ⟨ht, htotal⟩ := ht
  obtain ⟨hu, hutotal⟩ := hu
  rw [isLeap_eq_false_iff] at ht hu
  obtain ⟨secs, nanos, _, _, _, _⟩ := t
  obtain ⟨secs', nanos', _, _, _, _⟩ := u
  simp only [total] at htotal hutotal ht hu
  simp only [mk.injEq]
  omega

theorem ofParts?_eq_some_iff {secs : Int} {nanos : Nat} {t : Instant}
    : ofParts? secs nanos = some t ↔ t.secs = secs ∧ t.nanos = nanos := by
  obtain ⟨secs', nanos', hlower, hupper, hnanos, hleap⟩ := t
  rw [ofParts?]
  split
  · simp [eq_comm]
  next h =>
    refine iff_of_false (by simp) ?_
    rintro ⟨rfl, rfl⟩
    exact h ⟨hlower, hupper, hnanos, hleap⟩

theorem ofNanos?_eq_some_iff {n : Int} {t : Instant}
    : ofNanos? n = some t ↔ t.At n := by
  rw [ofNanos?, ofParts?_eq_some_iff, At, isLeap_eq_false_iff, total]
  omega

theorem isSome_ofNanos?_iff {n : Int} : (ofNanos? n).isSome = true ↔ InRange n := by
  rw [inRange_iff, ofNanos?, ofParts?]
  split
  next h => exact iff_of_true rfl (by omega)
  next h => exact iff_of_false (by simp) (by omega)

/-- A carry leaves the nanoseconds in total as they are. -/
theorem carried?_eq_ofNanos? (secs nanos : Int)
    : carried? secs nanos = ofNanos? (secs * 1000000000 + nanos) := by
  have hsecs : secs + nanos / 1000000000 = (secs * 1000000000 + nanos) / 1000000000 := by omega
  have hnanos : nanos % 1000000000 = (secs * 1000000000 + nanos) % 1000000000 := by omega
  rw [carried?, ofNanos?, hsecs, hnanos]

/-- Part by part, an instant outside leap seconds is moved as its nanoseconds are. -/
theorem move?_of_ordinary {t : Instant} (h : t.isLeap = false) (n : Int)
    : t.move? n = ofNanos? (t.total + n) := by
  have hparts : n.tdiv 1000000000 * 1000000000 + n.tmod 1000000000 = n := Int.tdiv_mul_add_tmod n _
  have htotal : (t.secs + n.tdiv 1000000000) * 1000000000 + (t.nanos + n.tmod 1000000000)
      = t.total + n := by
    rw [total]
    omega
  rw [move?, moveParts?, h, if_neg Bool.false_ne_true, carried?_eq_ofNanos?, htotal]

theorem add?_of_ordinary {t : Instant} (h : t.isLeap = false) (d : Duration)
    : t.add? d = ofNanos? (t.total + d.nanos) :=
  move?_of_ordinary h _

theorem subtract?_of_ordinary {t : Instant} (h : t.isLeap = false) (d : Duration)
    : t.subtract? d = ofNanos? (t.total - d.nanos) :=
  move?_of_ordinary h _

theorem distance_of_ordinary {t u : Instant} (ht : t.isLeap = false) (hu : u.isLeap = false)
    : distance t u = t.total - u.total := by
  simp only [distance, leapAdjustment, ht, hu, total, Bool.and_false, if_false, Bool.false_eq_true]
  omega

end Instant

end DynamicOps
