import DynamicOps.Time.Duration

/-!
Points in time with nanosecond resolution, counted in seconds from the start of 1970. A leap
second extends the second before it: its nanoseconds reach from one to two thousand million, and
it can only follow the last second of a minute. Moving an instant treats a leap second as real
when the movement stays within it, and leaves it towards the nearer ordinary second otherwise.
-/

namespace DynamicOps

/-- A point in time between the years -262143 and 262142. -/
structure Instant where
  secs : Int
  nanos : Nat
  lower : -8334601228800 ≤ secs
  upper : secs ≤ 8210266876799
  nanos_lt : nanos < 2000000000
  leap : 1000000000 ≤ nanos → secs % 60 = 59
deriving DecidableEq

namespace Instant

/-- The instant with given seconds and nanoseconds, if there is one. -/
def ofParts? (secs : Int) (nanos : Nat) : Option Instant :=
  if h : -8334601228800 ≤ secs ∧ secs ≤ 8210266876799 ∧ nanos < 2000000000
      ∧ (1000000000 ≤ nanos → secs % 60 = 59) then
    some ⟨secs, nanos, h.1, h.2.1, h.2.2.1, h.2.2.2⟩
  else none

/-- The instant lies in a leap second. -/
def isLeap (t : Instant) : Bool :=
  1000000000 ≤ t.nanos

/-- Earlier seconds come first, and earlier nanoseconds within the same second. -/
def less (x y : Instant) : Bool :=
  x.secs < y.secs || x.secs = y.secs && x.nanos < y.nanos

/-- The instant of some seconds and of nanoseconds that are carried to or borrowed from them. -/
def carried? (secs nanos : Int) : Option Instant :=
  ofParts? (secs + nanos / 1000000000) (nanos % 1000000000).toNat

/-- The instant later by some seconds and by nanoseconds of the same sign. A leap second stands for
the second before it when it is left forwards, and for the second after it when it is left
backwards.
-/
def moveParts? (t : Instant) (seconds rest : Int) : Option Instant :=
  if t.isLeap then
    if 0 < seconds || 0 < rest && 2000000000 ≤ t.nanos + rest then
      carried? (t.secs + seconds) (t.nanos - 1000000000 + rest)
    else if seconds < 0 then carried? (t.secs + 1 + seconds) (t.nanos - 1000000000 + rest)
    else ofParts? t.secs (t.nanos + rest).toNat
  else carried? (t.secs + seconds) (t.nanos + rest)

/-- The instant a number of nanoseconds later, by its parts towards zero, if it is in range. -/
def move? (t : Instant) (nanos : Int) : Option Instant :=
  t.moveParts? (nanos.tdiv 1000000000) (nanos.tmod 1000000000)

/-- The instant later by a span, if it is in range. -/
def add? (t : Instant) (d : Duration) : Option Instant :=
  t.move? d.nanos

/-- The instant earlier by a span, if it is in range. -/
def subtract? (t : Instant) (d : Duration) : Option Instant :=
  t.move? (-d.nanos)

/-- The second of the day, on which leap seconds between two instants are counted. -/
def secondOfDay (t : Instant) : Int :=
  t.secs % 86400

/-- The seconds that leap seconds add to the distance of two instants. -/
def leapAdjustment (x y : Instant) : Int :=
  if y.secondOfDay < x.secondOfDay && y.isLeap then 1
  else if x.secondOfDay < y.secondOfDay && x.isLeap then -1
  else 0

/-- The nanoseconds from one instant to another. -/
def distance (x y : Instant) : Int :=
  (x.secs - y.secs + leapAdjustment x y) * 1000000000 + (x.nanos - y.nanos)

theorem leapAdjustment_bounds (x y : Instant)
    : -1 ≤ leapAdjustment x y ∧ leapAdjustment x y ≤ 1 := by
  unfold leapAdjustment
  split
  · decide
  · split <;> decide

/-- The span from one instant to another, which is always in range. -/
def elapsed (x y : Instant) : Duration where
  nanos := distance x y
  lower := by
    have := leapAdjustment_bounds x y
    have := x.lower
    have := y.upper
    have := y.nanos_lt
    simp only [distance]
    omega
  upper := by
    have := leapAdjustment_bounds x y
    have := x.upper
    have := y.lower
    have := x.nanos_lt
    simp only [distance]
    omega

end Instant

end DynamicOps
