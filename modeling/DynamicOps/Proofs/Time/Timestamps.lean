import DynamicOps.Proofs.Text.Decimal
import DynamicOps.Proofs.Time.Calendar
import DynamicOps.Proofs.Time.Nanoseconds
import DynamicOps.Time.Timestamp

/-!
Timestamps read back. A printed timestamp is read part by part, the date through the calendar and a
leap second through its sixtieth second, and the instant is put together again from them. Only the
years of four digits are read; the other ones are printed with a sign.
-/

namespace DynamicOps.Timestamp

theorem number?_append {digits : List Char} (h : ∀ c ∈ digits, c.isDigit = true) (rest : List Char)
    : number? digits.length (digits ++ rest) = some (Text.valueOf digits, rest) := by
  have hall : digits.all Char.isDigit = true := List.all_eq_true.mpr h
  simp [number?, hall]

/-- A number that fits its width is read in front of any text. -/
theorem number?_padded {width n : Nat} (hwidth : 0 < width) (h : n < Nat.pow 10 width)
    (rest : List Char)
    : number? width (Text.padded width n ++ rest) = some (n, rest) := by
  have hdigits : ∀ c ∈ Text.padded width n, c.isDigit = true :=
    fun _ => Text.isDigit_of_mem_padded
  have hread := number?_append hdigits rest
  rwa [Text.length_padded hwidth h, Text.valueOf_padded] at hread

theorem number?_cons_of_not_digit {c : Char} (hc : c.isDigit = false) (width : Nat) (cs : List Char)
    : number? (width + 1) (c :: cs) = none := by
  simp [number?, hc]

theorem expect?_cons (c : Char) (cs : List Char) : expect? c (c :: cs) = some cs :=
  if_pos rfl

theorem nanosOf_padded {width n : Nat} (hwidth : 0 < width) (hnine : width ≤ 9)
    (h : n < Nat.pow 10 width)
    : nanosOf (Text.padded width n) = n * Nat.pow 10 (9 - width) := by
  have hlength := Text.length_padded hwidth h
  have htake : (Text.padded width n).take 9 = Text.padded width n :=
    List.take_of_length_le (Nat.le_trans (Nat.le_of_eq hlength) hnine)
  rw [nanosOf, htake, hlength, Text.valueOf_padded]

/-- Digits after a point are read up to the first character that is none. -/
theorem fraction?_padded {width n : Nat} {rest : List Char} (hwidth : 0 < width) (hnine : width ≤ 9)
    (h : n < Nat.pow 10 width) (hrest : ∀ c ∈ rest.head?, c.isDigit = false)
    : fraction? ('.' :: Text.padded width n ++ rest) = some (n * Nat.pow 10 (9 - width), rest) := by
  have hdigits : ∀ c ∈ Text.padded width n, c.isDigit = true :=
    fun _ => Text.isDigit_of_mem_padded
  have hne : (Text.padded width n).isEmpty = false := by
    rw [List.isEmpty_eq_false_iff, ← List.length_pos_iff, Text.length_padded hwidth h]
    exact hwidth
  rw [List.cons_append, fraction?]
  simp only [takeWhile_append_of_boundary hdigits hrest, dropWhile_append_of_boundary hdigits hrest,
    hne, nanosOf_padded hwidth hnine h, Bool.false_eq_true, if_false]

/-- A fraction in the fewest groups of digits is read as its nanoseconds, by cases on the groups. -/
theorem fraction?_fraction {nanos : Nat} {rest : List Char} (hnanos : nanos < 1000000000)
    (hdigit : ∀ c ∈ rest.head?, c.isDigit = false) (hpoint : rest.head? ≠ some '.')
    : fraction? (fraction nanos ++ rest) = some (nanos, rest) := by
  unfold fraction
  split
  next hzero =>
    rw [List.nil_append, hzero]
    unfold fraction?
    split
    · exact absurd rfl hpoint
    · rfl
  next =>
    split
    next hmillis =>
      have hfits : nanos / 1000000 < Nat.pow 10 3 := show _ < 1000 by omega
      have hscaled : nanos / 1000000 * Nat.pow 10 (9 - 3) = nanos :=
        Nat.div_mul_cancel (Nat.dvd_of_mod_eq_zero hmillis)
      rw [fraction?_padded (by decide) (by decide) hfits hdigit, hscaled]
    next =>
      split
      next hmicros =>
        have hfits : nanos / 1000 < Nat.pow 10 6 := show _ < 1000000 by omega
        have hscaled : nanos / 1000 * Nat.pow 10 (9 - 6) = nanos :=
          Nat.div_mul_cancel (Nat.dvd_of_mod_eq_zero hmicros)
        rw [fraction?_padded (by decide) (by decide) hfits hdigit, hscaled]
      next =>
        have hscaled : nanos * Nat.pow 10 (9 - 9) = nanos := Nat.mul_one nanos
        rw [fraction?_padded (by decide) (by decide) hnanos hdigit, hscaled]

/-- The text of a date. -/
def dateText (d : Date) : List Char :=
  year d.year ++ '-' :: (Text.padded 2 d.month ++ '-' :: Text.padded 2 d.day)

/-- The text of a time of day. -/
def timeText (hour minute second nanos : Nat) : List Char :=
  Text.padded 2 hour ++ ':' :: (Text.padded 2 minute ++ ':' :: (Text.padded 2 second
    ++ fraction nanos))

/-- A date of the calendar in a year of four digits is read in front of any text. -/
theorem date?_dateText {d : Date} (hlower : 0 ≤ d.year) (hupper : d.year ≤ 9999)
    (hvalid : d.isValid = true) (rest : List Char)
    : date? (dateText d ++ rest) = some (d, rest) := by
  obtain ⟨hmonth, hday⟩ := Date.bounds_of_isValid hvalid
  have hyearFits : d.year.toNat < Nat.pow 10 4 := show _ < 10000 by omega
  have hmonthFits : d.month < Nat.pow 10 2 := show _ < 100 by omega
  have hdayFits : d.day < Nat.pow 10 2 := show _ < 100 by omega
  have hyear : ((d.year.toNat : Nat) : Int) = d.year := Int.toNat_of_nonneg hlower
  rw [dateText, year, if_pos ⟨hlower, hupper⟩]
  simp only [List.append_assoc, List.cons_append, date?, number?_padded (by decide) hyearFits,
    number?_padded (by decide) hmonthFits, number?_padded (by decide) hdayFits, expect?_cons,
    Option.bind_eq_bind, Option.bind_some, hyear]
  exact if_pos hvalid

/-- A year that is not of four digits begins with a sign, and is not read. -/
theorem date?_dateText_of_year {d : Date} (h : ¬ (0 ≤ d.year ∧ d.year ≤ 9999)) (rest : List Char)
    : date? (dateText d ++ rest) = none := by
  have hsign : (if d.year < 0 then '-' else '+').isDigit = false := by
    split <;> rfl
  rw [dateText, year, if_neg h, List.cons_append, List.cons_append, date?,
    number?_cons_of_not_digit hsign]
  rfl

theorem timeOfDay?_timeText {hour minute second nanos : Nat} {rest : List Char} (hhour : hour ≤ 23)
    (hminute : minute ≤ 59) (hsecond : second ≤ 60) (hnanos : nanos < 1000000000)
    (hdigit : ∀ c ∈ rest.head?, c.isDigit = false) (hpoint : rest.head? ≠ some '.')
    : timeOfDay? (timeText hour minute second nanos ++ rest)
      = some (⟨hour * 3600 + minute * 60 + min second 59, second = 60, nanos⟩, rest) := by
  have hhourFits : hour < Nat.pow 10 2 := show _ < 100 by omega
  have hminuteFits : minute < Nat.pow 10 2 := show _ < 100 by omega
  have hsecondFits : second < Nat.pow 10 2 := show _ < 100 by omega
  rw [timeText]
  simp only [List.append_assoc, List.cons_append, timeOfDay?,
    number?_padded (by decide) hhourFits, number?_padded (by decide) hminuteFits,
    number?_padded (by decide) hsecondFits, expect?_cons,
    fraction?_fraction hnanos hdigit hpoint, Option.bind_eq_bind, Option.bind_some]
  exact if_pos (by simp [hhour, hminute, hsecond])

/-- The instant lies in a year of four digits, from the start of the year 0 to the end of the year
9999.
-/
def InPrintedYears (t : Instant) : Prop :=
  Date.toDays ⟨0, 1, 1⟩ * 86400 ≤ t.secs ∧ t.secs < Date.toDays ⟨10000, 1, 1⟩ * 86400

instance (t : Instant) : Decidable (InPrintedYears t) :=
  inferInstanceAs (Decidable (_ ∧ _))

/-- The instant's date has a year of four digits. -/
theorem inPrintedYears_iff {t : Instant}
    : InPrintedYears t
      ↔ 0 ≤ (Date.ofDays (t.secs / 86400)).year ∧ (Date.ofDays (t.secs / 86400)).year ≤ 9999 := by
  have hfirst : Date.toDays ⟨0, 1, 1⟩ = -719528 := by decide
  have hlast : Date.toDays ⟨10000, 1, 1⟩ = 2932897 := by decide
  have hlower := @Date.le_year_ofDays_iff 0 (t.secs / 86400)
  have hupper := @Date.le_year_ofDays_iff 10000 (t.secs / 86400)
  rw [hfirst] at hlower
  rw [hlast] at hupper
  rw [InPrintedYears, hfirst, hlast]
  omega

/-- The second within a minute as it is printed, which is the sixtieth in a leap second. -/
def printedSecond (t : Instant) : Nat :=
  t.secondOfDay.toNat % 60 + if t.isLeap then 1 else 0

theorem printedSecond_le (t : Instant) : printedSecond t ≤ 60 := by
  unfold printedSecond
  split <;> omega

/-- The sixtieth second is printed for leap seconds only, which follow the last second of a minute.
-/
theorem printedSecond_spec (t : Instant)
    : min (printedSecond t) 59 = t.secondOfDay.toNat % 60
      ∧ (printedSecond t = 60 ↔ 1000000000 ≤ t.nanos) := by
  have hleap := t.leap
  simp only [printedSecond, Instant.isLeap, Instant.secondOfDay, decide_eq_true_eq]
  split
  next h =>
    have := hleap h
    omega
  next => omega

theorem render_eq (t : Instant)
    : render t
      = dateText (Date.ofDays (t.secs / 86400))
        ++ 'T' :: (timeText (t.secondOfDay.toNat / 3600) (t.secondOfDay.toNat / 60 % 60)
          (printedSecond t) (t.nanos % 1000000000)
        ++ ['Z']) := by
  simp only [render, dateText, timeText, printedSecond, List.append_assoc, List.cons_append]

/-- A printed instant is read again exactly if its year has four digits. The date counts its days,
and the sixtieth second adds the thousand million nanoseconds of a leap second.
-/
theorem parse?_render (t : Instant)
    : parse? (render t) = if InPrintedYears t then some t else none := by
  rw [render_eq, parse?]
  split
  next h =>
    obtain ⟨hlower, hupper⟩ := inPrintedYears_iff.mp h
    obtain ⟨hsecond, hsixtieth⟩ := printedSecond_spec t
    have hday : 0 ≤ t.secs % 86400 ∧ t.secs % 86400 < 86400 := by omega
    have hhour : t.secondOfDay.toNat / 3600 ≤ 23 := by
      rw [Instant.secondOfDay]
      omega
    have hminute : t.secondOfDay.toNat / 60 % 60 ≤ 59 := by omega
    have hnanos : t.nanos % 1000000000 < 1000000000 := Nat.mod_lt _ (by decide)
    have hend : ∀ c ∈ ['Z'].head?, c.isDigit = false := by simp
    have htime := timeOfDay?_timeText hhour hminute (printedSecond_le t) hnanos hend (by simp)
    rw [date?_dateText hlower hupper (Date.isValid_ofDays _)]
    simp only [separator?, Option.bind_eq_bind, Option.bind_some, htime, offset?,
      Date.toDays_ofDays, hsecond, decide_eq_true_eq]
    rw [Instant.ofParts?_eq_some_iff]
    have := t.nanos_lt
    constructor
    · rw [Instant.secondOfDay]
      omega
    · split <;> omega
  next h =>
    rw [date?_dateText_of_year (mt inPrintedYears_iff.mpr h)]
    rfl

/-- The marks between the numbers of a timestamp. -/
def marks : List Char :=
  ['-', '+', 'T', ':', '.', 'Z']

theorem isDigit_or_mem_marks_of_padded {width n : Nat}
    : ∀ c ∈ Text.padded width n, c.isDigit = true ∨ c ∈ marks :=
  fun _ hc => .inl (Text.isDigit_of_mem_padded hc)

theorem isDigit_or_mem_marks_of_year (y : Int) : ∀ c ∈ year y, c.isDigit = true ∨ c ∈ marks := by
  unfold year
  split
  · exact isDigit_or_mem_marks_of_padded
  · refine List.forall_mem_cons.mpr ⟨.inr ?_, isDigit_or_mem_marks_of_padded⟩
    split <;> decide

theorem isDigit_or_mem_marks_of_fraction (nanos : Nat)
    : ∀ c ∈ fraction nanos, c.isDigit = true ∨ c ∈ marks := by
  have hpoint {width n : Nat}
      : ∀ c ∈ '.' :: Text.padded width n, c.isDigit = true ∨ c ∈ marks :=
    List.forall_mem_cons.mpr ⟨.inr (by decide), isDigit_or_mem_marks_of_padded⟩
  unfold fraction
  repeat' split
  · simp
  · exact hpoint
  · exact hpoint
  · exact hpoint

/-- A timestamp is printed in digits and marks only. -/
theorem isDigit_or_mem_marks {t : Instant} {c : Char} (h : c ∈ render t)
    : c.isDigit = true ∨ c ∈ marks := by
  have hmark (d : Char) (hd : d ∈ marks) : d.isDigit = true ∨ d ∈ marks := .inr hd
  revert c
  simp only [render_eq, dateText, timeText, List.forall_mem_append, List.forall_mem_cons]
  refine ⟨⟨isDigit_or_mem_marks_of_year _, hmark _ (by decide), isDigit_or_mem_marks_of_padded,
    hmark _ (by decide), isDigit_or_mem_marks_of_padded⟩, hmark _ (by decide),
    ⟨isDigit_or_mem_marks_of_padded, hmark _ (by decide), isDigit_or_mem_marks_of_padded,
      hmark _ (by decide), isDigit_or_mem_marks_of_padded, isDigit_or_mem_marks_of_fraction _⟩,
    hmark _ (by decide), by simp⟩

end DynamicOps.Timestamp
