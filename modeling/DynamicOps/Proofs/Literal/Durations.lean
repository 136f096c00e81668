import DynamicOps.Literal.Duration
import DynamicOps.Proofs.Text.Decimal
import DynamicOps.Proofs.Time.Nanoseconds
import Mathlib.Data.List.TakeWhile

/-!
The grammar of duration literals. A text is a duration exactly when it is written by the grammar, as
a lone zero or as components with a number and a unit each, and the duration is the exact sum of the
components. Digits and units share no characters, so a text has one reading. Every duration is
written by the whole seconds and the nanoseconds of its magnitude.
-/

namespace DynamicOps

namespace Duration

-----------------------------------------------------------------------------------------
-- The grammar
-----------------------------------------------------------------------------------------

/-- The units of a component, by their spellings. -/
inductive TimeUnit
  | nano
  | micro
  | microSign
  | milli
  | second
  | minute
  | hour

namespace TimeUnit

def text : TimeUnit → List Char
  | nano => ['n', 's']
  | micro => ['u', 's']
  | microSign => ['\u00b5', 's']
  | milli => ['m', 's']
  | second => ['s']
  | minute => ['m']
  | hour => ['h']

def nanos : TimeUnit → Nat
  | nano => 1
  | micro => 1000
  | microSign => 1000
  | milli => 1000000
  | second => 1000000000
  | minute => 60000000000
  | hour => 3600000000000

end TimeUnit

/-- A number in one or more digits, and a unit. -/
structure Component where
  digits : List Char
  unit : TimeUnit
  digits_ne_nil : digits ≠ []
  isDigit_of_mem : ∀ c ∈ digits, c.isDigit = true

namespace Component

def text (part : Component) : List Char :=
  part.digits ++ part.unit.text

def number (part : Component) : Nat :=
  Text.valueOf part.digits

def nanos (part : Component) : Nat :=
  part.number * part.unit.nanos

/-- The nanoseconds of some components together. -/
def total : List Component → Nat
  | [] => 0
  | part :: parts => part.nanos + total parts

end Component

/-- A text without a sign is written for a number of nanoseconds. -/
inductive WrittenUnsigned : List Char → Int → Prop
  | zero : WrittenUnsigned ['0'] 0
  | components {parts : List Component} (hne : parts ≠ [])
    (hnumber : ∀ part ∈ parts, part.number < 9223372036854775808)
    (htotal : Component.total parts ≤ limit)
    : WrittenUnsigned (parts.flatMap Component.text) (Component.total parts)

/-- A text is written for a number of nanoseconds. -/
inductive Written : List Char → Int → Prop
  | unsigned {cs : List Char} {n : Int} (h : WrittenUnsigned cs n) : Written cs n
  | plus {cs : List Char} {n : Int} (h : WrittenUnsigned cs n) : Written ('+' :: cs) n
  | minus {cs : List Char} {n : Int} (h : WrittenUnsigned cs n) : Written ('-' :: cs) (-n)

-----------------------------------------------------------------------------------------
-- One component
-----------------------------------------------------------------------------------------

theorem unit?_eq_some_iff {cs : List Char} {n : Nat}
    : unit? cs = some n ↔ ∃ u : TimeUnit, u.text = cs ∧ u.nanos = n := by
  constructor
  · intro h
    unfold unit? at h
    split at h <;> cases h
    · exact ⟨.nano, rfl, rfl⟩
    · exact ⟨.micro, rfl, rfl⟩
    · exact ⟨.microSign, rfl, rfl⟩
    · exact ⟨.milli, rfl, rfl⟩
    · exact ⟨.second, rfl, rfl⟩
    · exact ⟨.minute, rfl, rfl⟩
    · exact ⟨.hour, rfl, rfl⟩
  · rintro ⟨u, rfl, rfl⟩
    cases u <;> rfl

theorem TimeUnit.isDigit_of_mem_text {u : TimeUnit} {c : Char} (h : c ∈ u.text)
    : c.isDigit = false := by
  have hall : u.text.all (!·.isDigit) = true := by cases u <;> rfl
  simpa using List.all_eq_true.mp hall c h

theorem TimeUnit.text_ne_nil (u : TimeUnit) : u.text ≠ [] := by
  cases u <;> simp [text]

theorem Component.isDigit_head? (parts : List Component)
    : ∀ c ∈ (parts.flatMap Component.text).head?, c.isDigit = true := by
  cases parts with
  | nil => simp
  | cons part parts =>
      obtain ⟨c, cs, hdigits⟩ := List.exists_cons_of_ne_nil part.digits_ne_nil
      have hc : c.isDigit = true := part.isDigit_of_mem c (by simp [hdigits])
      simp [Component.text, hdigits, hc]

theorem component?_eq (part : Component)
    : component? part.digits part.unit.text
      = if part.number < 9223372036854775808 then ofNanos? part.nanos else none := by
  have hunit : unit? part.unit.text = some part.unit.nanos := unit?_eq_some_iff.mpr ⟨_, rfl, rfl⟩
  simp only [component?, hunit, Option.bind_eq_bind, Option.bind_some]
  rfl

/-- A component that is read was written with its digits and one of the units. -/
theorem component?_sound {digits unit : List Char} {d : Duration} (hne : digits ≠ [])
    (hdigits : ∀ c ∈ digits, c.isDigit = true) (h : component? digits unit = some d)
    : ∃ part : Component,
        part.text = digits ++ unit
        ∧ part.number < 9223372036854775808
        ∧ d.nanos = part.nanos := by
  simp only [component?, Option.bind_eq_bind, Option.bind_eq_some_iff] at h
  obtain ⟨n, hunit, h⟩ := h
  obtain ⟨u, rfl, rfl⟩ := unit?_eq_some_iff.mp hunit
  split at h
  next hnumber =>
    exact ⟨⟨digits, u, hne, hdigits⟩, rfl, hnumber, ofNanos?_eq_some_iff.mp h⟩
  next => cases h

/-- A component in front of a text is read by itself, if the text goes on with a digit. -/
theorem components?_append (sum : Duration) (part : Component) {rest : List Char}
    (hrest : ∀ c ∈ rest.head?, c.isDigit = true)
    : components? sum (part.text ++ rest)
      = (component? part.digits part.unit.text).bind fun d =>
          (sum.add? d).bind fun s => components? s rest := by
  obtain ⟨c, cs, hdigits⟩ := List.exists_cons_of_ne_nil part.digits_ne_nil
  have hc : c.isDigit = true := part.isDigit_of_mem c (by simp [hdigits])
  have hcs : ∀ x ∈ cs, x.isDigit = true := fun x hx => part.isDigit_of_mem x (by simp [hdigits, hx])
  have hunit : ∀ x ∈ part.unit.text, (!x.isDigit) = true := by
    intro x hx
    simp [TimeUnit.isDigit_of_mem_text hx]
  have hboundary : ∀ x ∈ (part.unit.text ++ rest).head?, x.isDigit = false := by
    obtain ⟨u, us, hus⟩ := List.exists_cons_of_ne_nil part.unit.text_ne_nil
    have hu : u.isDigit = false := TimeUnit.isDigit_of_mem_text (u := part.unit) (by simp [hus])
    simp [hus, hu]
  have hboundary' : ∀ x ∈ rest.head?, (!x.isDigit) = false := by
    intro x hx
    simp [hrest x hx]
  rw [Component.text, hdigits, List.append_assoc, List.cons_append, components?, if_pos hc]
  simp only [takeWhile_append_of_boundary hcs hboundary, dropWhile_append_of_boundary hcs hboundary,
    takeWhile_append_of_boundary hunit hboundary', dropWhile_append_of_boundary hunit hboundary']
  rfl

-----------------------------------------------------------------------------------------
-- Sums of components
-----------------------------------------------------------------------------------------

theorem exists_of_inRange {n : Int} (h : InRange n) : ∃ d : Duration, d.nanos = n :=
  ⟨⟨n, h.1, h.2⟩, rfl⟩

/-- Components are added up, by induction over them: no sum on the way exceeds the last one. -/
theorem components?_complete {parts : List Component}
    (hnumber : ∀ part ∈ parts, part.number < 9223372036854775808) {sum d : Duration}
    (hsum : 0 ≤ sum.nanos) (hd : d.nanos = sum.nanos + Component.total parts)
    : components? sum (parts.flatMap Component.text) = some d := by
  induction parts generalizing sum with
  | nil =>
      have hsame : ofNanos? sum.nanos = some d :=
        ofNanos?_eq_some_iff.mpr (by simpa [Component.total] using hd)
      rw [List.flatMap_nil, components?, ← hsame, ofNanos?_eq_some_iff.mpr rfl]
  | cons part parts ih =>
      rw [Component.total] at hd
      have hlower := d.lower
      have hupper := d.upper
      obtain ⟨e, he⟩ : ∃ e : Duration, e.nanos = part.nanos :=
        exists_of_inRange (by constructor <;> simp only [limit] <;> omega)
      obtain ⟨s, hs⟩ : ∃ s : Duration, s.nanos = sum.nanos + e.nanos :=
        exists_of_inRange (by constructor <;> simp only [limit] <;> omega)
      rw [List.flatMap_cons, components?_append _ _ (Component.isDigit_head? parts), component?_eq,
        if_pos (hnumber part (by simp)), ofNanos?_eq_some_iff.mpr he, Option.bind_some,
        add?_eq_some_iff.mpr hs, Option.bind_some]
      have hnumber' : ∀ p ∈ parts, p.number < 9223372036854775808 :=
        fun p hp => hnumber p (List.mem_cons_of_mem part hp)
      exact ih hnumber' (by omega) (by omega)

/-- Whatever was added up was written in components, by induction along the reading. -/
theorem components?_sound {sum d : Duration} {cs : List Char} (h : components? sum cs = some d)
    : ∃ parts : List Component,
        parts.flatMap Component.text = cs
        ∧ (∀ part ∈ parts, part.number < 9223372036854775808)
        ∧ d.nanos = sum.nanos + Component.total parts := by
  fun_induction components? sum cs with
  | case1 sum =>
      cases h
      exact ⟨[], rfl, by simp, by simp [Component.total]⟩
  | case2 sum c cs hc rest ih =>
      simp only [Option.bind_eq_bind, Option.bind_eq_some_iff] at h
      obtain ⟨e, he, s, hs, h⟩ := h
      have hdigits : ∀ x ∈ c :: cs.takeWhile Char.isDigit, x.isDigit = true := by
        intro x hx
        rcases List.mem_cons.mp hx with rfl | hx
        · exact hc
        · exact List.mem_takeWhile_imp hx
      obtain ⟨part, htext, hnumber, hpart⟩ := component?_sound (by simp) hdigits he
      obtain ⟨parts, hparts, hnumbers, hd⟩ := ih s h
      refine ⟨part :: parts, ?_, ?_, ?_⟩
      · rw [List.flatMap_cons, hparts, htext, List.append_assoc, List.takeWhile_append_dropWhile,
          List.cons_append, List.takeWhile_append_dropWhile]
      · intro p hp
        rcases List.mem_cons.mp hp with rfl | hp
        · exact hnumber
        · exact hnumbers p hp
      · have := add?_eq_some_iff.mp hs
        rw [Component.total]
        omega
  | case3 => cases h

-----------------------------------------------------------------------------------------
-- Whole texts
-----------------------------------------------------------------------------------------

/-- A number with a unit has at least two characters, so a lone zero is no component. -/
theorem Component.two_le_length {parts : List Component} (hne : parts ≠ [])
    : 2 ≤ (parts.flatMap Component.text).length := by
  obtain ⟨part, parts, rfl⟩ := List.exists_cons_of_ne_nil hne
  have hdigits := List.length_pos_iff.mpr part.digits_ne_nil
  have hunit := List.length_pos_iff.mpr part.unit.text_ne_nil
  simp only [List.flatMap_cons, List.length_append, Component.text]
  omega

theorem ofUnsigned?_eq_components? {cs : List Char} (h : 2 ≤ cs.length)
    : ofUnsigned? cs = components? zero cs := by
  unfold ofUnsigned?
  split
  · simp at h
  · simp at h
  · rfl

theorem ofUnsigned?_complete {cs : List Char} {n : Int} (h : WrittenUnsigned cs n)
    : ∃ d : Duration, ofUnsigned? cs = some d ∧ d.nanos = n := by
  cases h with
  | zero => exact ⟨zero, rfl, rfl⟩
  | @components parts hne hnumber htotal =>
      obtain ⟨d, hd⟩ : ∃ d : Duration, d.nanos = Component.total parts :=
        exists_of_inRange (by constructor <;> simp only [limit] at * <;> omega)
      have hread : components? zero (parts.flatMap Component.text) = some d :=
        components?_complete hnumber (Int.le_refl 0) (by simpa [zero] using hd)
      exact ⟨d, (ofUnsigned?_eq_components? (Component.two_le_length hne)).trans hread, hd⟩

theorem ofUnsigned?_sound {cs : List Char} {d : Duration} (h : ofUnsigned? cs = some d)
    : WrittenUnsigned cs d.nanos := by
  unfold ofUnsigned? at h
  split at h
  · cases h
  · cases h
    exact .zero
  next hnil hzero =>
    obtain ⟨parts, rfl, hnumber, hd⟩ := components?_sound h
    have hne : parts ≠ [] := by
      rintro rfl
      exact hnil rfl
    have hd' : d.nanos = Component.total parts := by simpa [zero] using hd
    have hupper := d.upper
    rw [hd']
    exact .components hne hnumber (by simp only [limit]; omega)

/-- Neither sign begins a text that is written without one. -/
theorem WrittenUnsigned.isDigit_head? {cs : List Char} {n : Int} (h : WrittenUnsigned cs n)
    : ∀ c ∈ cs.head?, c.isDigit = true := by
  cases h with
  | zero => simp
  | components => exact Component.isDigit_head? _

theorem ofText?_of_unsigned {cs : List Char} (hminus : cs.head? ≠ some '-')
    (hplus : cs.head? ≠ some '+')
    : ofText? cs = ofUnsigned? cs := by
  unfold ofText?
  split
  · exact absurd rfl hminus
  · exact absurd rfl hplus
  · rfl

/-- What is written is read as its nanoseconds, by cases on the sign. -/
theorem ofText?_complete {cs : List Char} {n : Int} (h : Written cs n)
    : ∃ d : Duration, ofText? cs = some d ∧ d.nanos = n := by
  cases h with
  | unsigned h =>
      have hsign {c : Char} (hc : c.isDigit = false) : cs.head? ≠ some c := by
        intro hhead
        simp [h.isDigit_head? c hhead] at hc
      rw [ofText?_of_unsigned (hsign (by decide)) (hsign (by decide))]
      exact ofUnsigned?_complete h
  | plus h => exact ofUnsigned?_complete h
  | minus h =>
      obtain ⟨d, hd, hn⟩ := ofUnsigned?_complete h
      exact ⟨d.negate, congrArg (Option.map negate) hd, congrArg Neg.neg hn⟩

/-- What is read was written, by cases on the sign. -/
theorem ofText?_sound {cs : List Char} {d : Duration} (h : ofText? cs = some d)
    : Written cs d.nanos := by
  unfold ofText? at h
  split at h
  · obtain ⟨e, he, rfl⟩ := Option.map_eq_some_iff.mp h
    exact .minus (ofUnsigned?_sound he)
  · exact .plus (ofUnsigned?_sound h)
  · exact .unsigned (ofUnsigned?_sound h)

theorem ofText?_eq_some_iff {cs : List Char} {d : Duration}
    : ofText? cs = some d ↔ Written cs d.nanos := by
  constructor
  · exact ofText?_sound
  · intro h
    obtain ⟨e, he, hnanos⟩ := ofText?_complete h
    rw [he, ← ofNanos?_eq_some_iff.mpr hnanos, ofNanos?_eq_some_iff.mpr rfl]

/-- A text is a duration exactly if it is written by the grammar, and it is the duration that it is
written for. A minus sign before a text without a sign gives the opposite duration, or none again.
-/
theorem duration_literals_exact (cs : List Char)
    : (∀ d, ofText? cs = some d ↔ Written cs d.nanos)
      ∧ ((ofText? cs).isSome = true ↔ ∃ n, Written cs n)
      ∧ (cs.head? ≠ some '-' → cs.head? ≠ some '+' →
          ofText? ('-' :: cs) = (ofText? cs).map negate) := by
  refine ⟨fun _ => ofText?_eq_some_iff, ?_, ?_⟩
  · rw [Option.isSome_iff_exists]
    constructor
    · rintro ⟨d, hd⟩
      exact ⟨d.nanos, ofText?_sound hd⟩
    · rintro ⟨n, hn⟩
      obtain ⟨d, hd, _⟩ := ofText?_complete hn
      exact ⟨d, hd⟩
  · intro hminus hplus
    rw [ofText?_of_unsigned hminus hplus]
    rfl

/-- The longest duration, in seconds, milliseconds, and microseconds of both spellings, is read
after a minus sign as its opposite.
-/
theorem duration_literals_exact_longest
    : "9223372036854775s806ms999\u00b5s1us".toList.head? ≠ some '-'
      ∧ "9223372036854775s806ms999\u00b5s1us".toList.head? ≠ some '+'
      ∧ ofText? ('-' :: "9223372036854775s806ms999\u00b5s1us".toList)
        = some ⟨-9223372036854775807000000, by decide, by decide⟩ := by
  have hminus : "9223372036854775s806ms999\u00b5s1us".toList.head? ≠ some '-' := by decide +kernel
  have hplus : "9223372036854775s806ms999\u00b5s1us".toList.head? ≠ some '+' := by decide +kernel
  refine ⟨hminus, hplus, ?_⟩
  rw [(duration_literals_exact _).2.2 hminus hplus]
  decide +kernel

-----------------------------------------------------------------------------------------
-- Seconds and nanoseconds
-----------------------------------------------------------------------------------------

/-- A component of a number in decimal. -/
def Component.ofNat (n : Nat) (u : TimeUnit) : Component where
  digits := Text.digits n
  unit := u
  digits_ne_nil := Text.digits_ne_nil n
  isDigit_of_mem _ := Text.isDigit_of_mem_digits

theorem Component.nanos_ofNat (n : Nat) (u : TimeUnit) : (ofNat n u).nanos = n * u.nanos := by
  rw [nanos, number, ofNat, Text.valueOf_digits]

/-- The text of whole seconds and of nanoseconds after them. -/
def inParts (seconds nanos : Nat) : List Char :=
  Text.digits seconds ++ 's' :: (Text.digits nanos ++ ['n', 's'])

/-- Seconds and nanoseconds that make a duration are written as its magnitude. -/
theorem writtenUnsigned_inParts {seconds nanos : Nat} (hnanos : nanos < 1000000000)
    (h : seconds * 1000000000 + nanos ≤ limit)
    : WrittenUnsigned (inParts seconds nanos) (seconds * 1000000000 + nanos : Nat) := by
  have htext : inParts seconds nanos
      = [Component.ofNat seconds .second, Component.ofNat nanos .nano].flatMap Component.text := by
    simp [inParts, Component.text, Component.ofNat, TimeUnit.text]
  have htotal
      : Component.total [Component.ofNat seconds .second, Component.ofNat nanos .nano]
        = seconds * 1000000000 + nanos := by
    simp [Component.total, Component.nanos_ofNat, TimeUnit.nanos]
  have hnumber (n : Nat) (u : TimeUnit) : (Component.ofNat n u).number = n := Text.valueOf_digits n
  simp only [limit] at h
  rw [htext, ← htotal]
  refine .components (by simp) ?_ ?_
  · simp only [List.mem_cons, List.not_mem_nil, or_false, forall_eq_or_imp, forall_eq, hnumber]
    omega
  · rw [htotal]
    simp only [limit]
    omega

theorem ofText?_inParts {d : Duration} {seconds nanos : Nat} (hnanos : nanos < 1000000000)
    (h : d.nanos = (seconds * 1000000000 + nanos : Nat))
    : ofText? (inParts seconds nanos) = some d ∧ ofText? ('+' :: inParts seconds nanos) = some d
    := by
  have hlimit : seconds * 1000000000 + nanos ≤ limit := by
    have := d.upper
    simp only [limit]
    omega
  have hwritten := writtenUnsigned_inParts hnanos hlimit
  rw [← h] at hwritten
  exact ⟨ofText?_eq_some_iff.mpr (.unsigned hwritten), ofText?_eq_some_iff.mpr (.plus hwritten)⟩

theorem ofText?_minus_inParts {d : Duration} {seconds nanos : Nat} (hnanos : nanos < 1000000000)
    (h : d.nanos = -(seconds * 1000000000 + nanos : Nat))
    : ofText? ('-' :: inParts seconds nanos) = some d := by
  have hlimit : seconds * 1000000000 + nanos ≤ limit := by
    have := d.lower
    simp only [limit]
    omega
  have hwritten := writtenUnsigned_inParts hnanos hlimit
  exact ofText?_eq_some_iff.mpr (h ▸ .minus hwritten)

/-- A duration is written by the whole seconds and the rest of its magnitude. -/
theorem exists_ofText? (d : Duration) : ∃ cs, ofText? cs = some d := by
  have hnanos : d.nanos.natAbs % 1000000000 < 1000000000 := Nat.mod_lt _ (by decide)
  have hparts : d.nanos.natAbs / 1000000000 * 1000000000 + d.nanos.natAbs % 1000000000
      = d.nanos.natAbs := Nat.div_add_mod' _ _
  rcases Int.le_total 0 d.nanos with hd | hd
  · exact ⟨_, (ofText?_inParts hnanos (by rw [hparts]; omega)).1⟩
  · exact ⟨_, ofText?_minus_inParts hnanos (by rw [hparts]; omega)⟩

end Duration

end DynamicOps
