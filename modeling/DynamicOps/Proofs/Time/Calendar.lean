import DynamicOps.Time.Calendar
import Mathlib.Data.List.GetD

/-!
The calendar finds every day. Dividing days into cycles of years and walking along the months is
inverse to counting them, and only reaches dates that exist. The years follow each other without
gaps, so that the year of a day is found by comparing it with the first days of years.
-/

namespace DynamicOps.Date

/-- The days of some months together. -/
def totalDays (lengths : List Nat) : Nat :=
  lengths.foldr (· + ·) 0

/-- The length of a year. -/
def yearLength (leap : Bool) : Nat :=
  if leap then 366 else 365

theorem totalDays_monthLengths (leap : Bool) : totalDays (monthLengths leap) = yearLength leap := by
  cases leap <;> rfl

/-- A walk along months that hold the days stops within one of them, by induction over the months.
-/
theorem walk_spec {lengths : List Nat} {rest : Nat} (h : rest < totalDays lengths)
    : (walk lengths rest).2 < lengths.getD (walk lengths rest).1 0
      ∧ totalDays (lengths.take (walk lengths rest).1) + (walk lengths rest).2 = rest := by
  induction lengths generalizing rest with
  | nil => simp [totalDays] at h
  | cons length lengths ih =>
      rw [walk]
      split
      next hlt => exact ⟨hlt, Nat.zero_add rest⟩
      next hge =>
        have hrest : rest - length < totalDays lengths := by
          simp only [totalDays, List.foldr_cons] at h ⊢
          omega
        obtain ⟨hwithin, hsum⟩ := ih hrest
        refine ⟨by simpa using hwithin, ?_⟩
        simp only [totalDays, List.take_succ_cons, List.foldr_cons] at hsum ⊢
        omega

theorem daysBeforeYear_succ (year : Int)
    : daysBeforeYear (year + 1) = daysBeforeYear year + yearLength (isLeap year) := by
  have hleap : isLeap year = true ↔ year % 4 = 0 ∧ (year % 100 ≠ 0 ∨ year % 400 = 0) := by
    simp [isLeap]
  simp only [daysBeforeYear, yearLength]
  split
  next h =>
    have := hleap.mp h
    omega
  next h =>
    have := mt hleap.mpr h
    omega

theorem daysBeforeYear_mono {y z : Int} (h : y ≤ z) : daysBeforeYear y ≤ daysBeforeYear z := by
  simp only [daysBeforeYear]
  omega

/-- The days before a year from its place in the cycles of 400, 100, and 4 years. -/
theorem daysBeforeYear_of_places {cycle : Int} {century four year : Nat} (hcentury : century ≤ 3)
    (hfour : four ≤ 24) (hyear : year ≤ 3)
    : daysBeforeYear (1 + 400 * cycle + (100 * century + 4 * four + year : Nat))
      = 146097 * cycle + 36524 * century + 1461 * four + 365 * year := by
  simp only [daysBeforeYear]
  omega

/-- The last of four years is a leap year unless it ends a century that is not the last of four. -/
theorem isLeap_of_places {cycle : Int} {century four : Nat} (hfour : four ≤ 24)
    (hlast : four = 24 → century = 3)
    : isLeap (1 + 400 * cycle + (100 * century + 4 * four + 3 : Nat)) = true := by
  simp only [isLeap, Bool.and_eq_true, Bool.or_eq_true, decide_eq_true_eq]
  omega

/-- A day lies in the year that is found for it, and as many days after the first one. Only the last
century of a cycle and the last of four years have a day more, which is why the divisions stop at
three.
-/
theorem yearOf_spec (n : Int)
    : daysBeforeYear (yearOf n).1 + (yearOf n).2 = n
      ∧ (yearOf n).2 < yearLength (isLeap (yearOf n).1) := by
  simp only [yearOf]
  have hcycle : 146097 * (n / 146097) + ((n % 146097).toNat : Int) = n := by omega
  have hinCycle : (n % 146097).toNat < 146097 := by omega
  generalize n / 146097 = cycle at hcycle ⊢
  generalize (n % 146097).toNat = inCycle at hcycle hinCycle ⊢
  obtain ⟨century, hcentury⟩ : ∃ c, c = min (inCycle / 36524) 3 := ⟨_, rfl⟩
  rw [← hcentury]
  obtain ⟨inCentury, hinCentury⟩ : ∃ r, r = inCycle - 36524 * century := ⟨_, rfl⟩
  rw [← hinCentury]
  have hcenturies : 36524 * century + inCentury = inCycle := by omega
  have hlast : inCentury = 36524 → century = 3 := by omega
  have hfours : 1461 * (inCentury / 1461) + inCentury % 1461 = inCentury := Nat.div_add_mod _ _
  have hfour : inCentury / 1461 ≤ 24 := by omega
  have hinFour : inCentury % 1461 < 1461 := Nat.mod_lt _ (by decide)
  generalize inCentury / 1461 = four at hfours hfour ⊢
  generalize inCentury % 1461 = inFour at hfours hinFour ⊢
  obtain ⟨year, hyear⟩ : ∃ a, a = min (inFour / 365) 3 := ⟨_, rfl⟩
  rw [← hyear, daysBeforeYear_of_places (by omega) hfour (by omega)]
  refine ⟨by omega, ?_⟩
  by_cases hday : inFour = 1460
  · have hleap : isLeap (1 + 400 * cycle + (100 * century + 4 * four + year : Nat)) = true := by
      obtain rfl : year = 3 := by omega
      exact isLeap_of_places hfour (by omega)
    rw [hleap, yearLength, if_pos rfl]
    omega
  · have hlength : 365 ≤ yearLength (isLeap (1 + 400 * cycle
        + (100 * century + 4 * four + year : Nat))) := by
      unfold yearLength
      split <;> decide
    omega

/-- Counting the days to the date of a day gives the day again. -/
theorem toDays_ofDays (days : Int) : toDays (ofDays days) = days := by
  obtain ⟨hday, hlength⟩ := yearOf_spec (days + epoch)
  rw [← totalDays_monthLengths] at hlength
  obtain ⟨_, hsum⟩ := walk_spec hlength
  simp only [toDays, ofDays, daysBeforeMonth, Nat.add_sub_cancel]
  rw [totalDays] at hsum
  omega

/-- The date of a day is in the calendar. -/
theorem isValid_ofDays (days : Int) : (ofDays days).isValid = true := by
  obtain ⟨_, hlength⟩ := yearOf_spec (days + epoch)
  rw [← totalDays_monthLengths] at hlength
  obtain ⟨hwithin, _⟩ := walk_spec hlength
  simpa [isValid, ofDays, Nat.succ_le_iff] using hwithin

/-- No date of the calendar is beyond the twelfth month or beyond the longest month. -/
theorem bounds_of_isValid {d : Date} (h : d.isValid = true) : d.month ≤ 12 ∧ d.day ≤ 31 := by
  obtain ⟨year, month, day⟩ := d
  simp only [isValid, Bool.and_eq_true, decide_eq_true_eq] at h ⊢
  obtain ⟨⟨_, hday⟩, hwithin⟩ := h
  have hlongest : ∀ length ∈ monthLengths (isLeap year), length ≤ 31 := by
    cases isLeap year <;> decide
  have hmonths : (monthLengths (isLeap year)).length = 12 := rfl
  rcases Nat.lt_or_ge (month - 1) 12 with hmonth | hmonth
  · have hmem := List.getElem_mem (hmonths.symm ▸ hmonth : month - 1 < (monthLengths _).length)
    rw [List.getD_eq_getElem _ _ (hmonths.symm ▸ hmonth)] at hwithin
    exact ⟨by omega, Nat.le_trans hwithin (hlongest _ hmem)⟩
  · rw [List.getD_eq_default _ _ (hmonths.symm ▸ hmonth)] at hwithin
    omega

/-- The year of a day is the last one that begins by then. -/
theorem le_year_ofDays_iff {year days : Int}
    : year ≤ (ofDays days).year ↔ toDays ⟨year, 1, 1⟩ ≤ days := by
  obtain ⟨hday, hlength⟩ := yearOf_spec (days + epoch)
  have hnext := daysBeforeYear_succ (yearOf (days + epoch)).1
  have hfirst : toDays ⟨year, 1, 1⟩ = daysBeforeYear year - epoch := by
    simp [toDays, daysBeforeMonth]
  rw [hfirst]
  change year ≤ (yearOf (days + epoch)).1 ↔ _
  constructor
  · intro h
    have := daysBeforeYear_mono h
    omega
  · intro h
    refine Int.not_lt.mp fun hlt => ?_
    have := daysBeforeYear_mono (Int.add_one_le_of_lt hlt)
    omega

end DynamicOps.Date
