/-!
The proleptic Gregorian calendar. Days are counted from the first of January 1970; a date is found
by dividing into cycles of 400, 100, 4, and 1 years and then walking along the months.
-/

namespace DynamicOps

/-- A date; months and days of the month count from one. -/
structure Date where
  year : Int
  month : Nat
  day : Nat
deriving DecidableEq

namespace Date

/-- Leap years are divisible by four, and by 400 when they are divisible by 100. -/
def isLeap (year : Int) : Bool :=
  year % 4 = 0 && (year % 100 ≠ 0 || year % 400 = 0)

/-- The lengths of the months of a year. -/
def monthLengths (leap : Bool) : List Nat :=
  [31, if leap then 29 else 28, 31, 30, 31, 30, 31, 31, 30, 31, 30, 31]

/-- The date exists in the calendar. -/
def isValid (d : Date) : Bool :=
  1 ≤ d.month && 1 ≤ d.day && d.day ≤ (monthLengths (isLeap d.year)).getD (d.month - 1) 0

/-- The days from the first of January of year one to the first of January of a year. -/
def daysBeforeYear (year : Int) : Int :=
  365 * (year - 1) + (year - 1) / 4 - (year - 1) / 100 + (year - 1) / 400

/-- The days from the first of January to the first day of a month of the same year. -/
def daysBeforeMonth (leap : Bool) (month : Nat) : Nat :=
  ((monthLengths leap).take (month - 1)).foldr (· + ·) 0

/-- The day number of the first of January 1970, counted from year one. -/
def epoch : Int :=
  719162

/-- The days from the first of January 1970 to a date. -/
def toDays (d : Date) : Int :=
  daysBeforeYear d.year + daysBeforeMonth (isLeap d.year) d.month + (d.day - 1 : Nat) - epoch

/-- Walks along month lengths; answers with the months passed and the days left. -/
def walk : List Nat → Nat → Nat × Nat
  | [], rest => (0, rest)
  | length :: lengths, rest =>
    if rest < length then (0, rest)
    else
      let (months, left) := walk lengths (rest - length)
      (months + 1, left)

/-- The year of a day counted from year one, and the days passed in it. -/
def yearOf (n : Int) : Int × Nat :=
  let inCycle := (n % 146097).toNat
  let century := min (inCycle / 36524) 3
  let inCentury := inCycle - 36524 * century
  let inFour := inCentury % 1461
  let year := min (inFour / 365) 3
  (1 + 400 * (n / 146097) + (100 * century + 4 * (inCentury / 1461) + year : Nat),
    inFour - 365 * year)

/-- The date a number of days after the first of January 1970. -/
def ofDays (days : Int) : Date :=
  let (year, dayOfYear) := yearOf (days + epoch)
  let (month, day) := walk (monthLengths (isLeap year)) dayOfYear
  ⟨year, month + 1, day + 1⟩

end Date

end DynamicOps
