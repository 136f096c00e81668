import DynamicOps.Proofs.Json.Strings
import DynamicOps.Proofs.Text.Decimal

/-!
Reading words and numbers of JSON texts. A text has the parts of at most one number, and a word or
number ends before the first character that none of them has.
-/

namespace DynamicOps.Json

/-- The number whose magnitude is a text, if the text has the parts of one. -/
def magnitude? (negative : Bool) (cs : List Char) : Option Numeral :=
  let whole := cs.takeWhile Char.isDigit
  let rest := cs.dropWhile Char.isDigit
  let fraction := rest.takeWhile (!isExponentMark ·)
  let exponent := rest.dropWhile (!isExponentMark ·)
  if h : isWhole whole = true ∧ isFraction fraction = true ∧ isExponent exponent = true then
    some ⟨negative, whole, fraction, exponent, h.1, h.2.1, h.2.2⟩
  else none

/-- The number that a text is. -/
def numeral? : List Char → Option Numeral
  | '-' :: cs => magnitude? true cs
  | cs => magnitude? false cs

theorem isDigit_of_isDigits {cs : List Char} (h : isDigits cs = true) {c : Char} (hc : c ∈ cs)
    : c.isDigit = true := by
  simp only [isDigits, Bool.and_eq_true] at h
  exact List.all_eq_true.mp h.2 c hc

theorem isDigits_of_isWhole {cs : List Char} (h : isWhole cs = true) : isDigits cs = true := by
  simp only [isWhole, Bool.and_eq_true] at h
  exact h.1

theorem exists_of_isDigits {cs : List Char} (h : isDigits cs = true)
    : ∃ c tail, cs = c :: tail ∧ c.isDigit = true := by
  cases cs with
  | nil => cases h
  | cons c tail => exact ⟨c, tail, rfl, isDigit_of_isDigits h List.mem_cons_self⟩

theorem isExponentMark_of_isDigit {c : Char} (h : c.isDigit = true) : isExponentMark c = false := by
  simp only [isExponentMark, Bool.or_eq_false_iff, decide_eq_false_iff_not]
  constructor <;> rintro rfl <;> cases h

theorem eq_point_or_isDigit_of_mem {cs : List Char} (h : isFraction cs = true) {c : Char}
    (hc : c ∈ cs)
    : c = '.' ∨ c.isDigit = true := by
  cases cs with
  | nil => cases hc
  | cons d digits =>
      simp only [isFraction, Bool.and_eq_true, decide_eq_true_eq] at h
      rcases List.mem_cons.mp hc with rfl | hc
      · exact .inl h.1
      · exact .inr (isDigit_of_isDigits h.2 hc)

theorem isExponentMark_head? {cs : List Char} (h : isExponent cs = true)
    : ∀ c ∈ cs.head?, isExponentMark c = true := by
  intro c hc
  unfold isExponent at h
  split at h
  next => cases hc
  all_goals
    simp only [Bool.and_eq_true] at h
    cases hc
    exact h.1

theorem isDigit_of_isExponentMark {c : Char} (h : isExponentMark c = true) : c.isDigit = false := by
  refine Bool.eq_false_iff.mpr fun hdigit => ?_
  rw [isExponentMark_of_isDigit hdigit] at h
  cases h

theorem magnitude?_sound {negative : Bool} {cs : List Char} {n : Numeral}
    (h : magnitude? negative cs = some n)
    : n.negative = negative ∧ n.whole ++ n.fraction ++ n.exponent = cs := by
  simp only [magnitude?] at h
  split at h
  next =>
    cases h
    exact ⟨rfl, by simp only [List.append_assoc, List.takeWhile_append_dropWhile]⟩
  next => cases h

/-- The parts of a number are found in its text: the first one ends before a point or a mark, and
the second one before a mark.
-/
theorem magnitude?_append (n : Numeral)
    : magnitude? n.negative (n.whole ++ (n.fraction ++ n.exponent)) = some n := by
  obtain ⟨negative, whole, fraction, exponent, hwhole, hfraction, hexponent⟩ := n
  have hdigits : ∀ c ∈ whole, c.isDigit = true :=
    fun _ => isDigit_of_isDigits (isDigits_of_isWhole hwhole)
  have hunmarked : ∀ c ∈ fraction, (!isExponentMark c) = true := by
    intro c hc
    rcases eq_point_or_isDigit_of_mem hfraction hc with rfl | hdigit
    · rfl
    · rw [isExponentMark_of_isDigit hdigit, Bool.not_false]
  have hmark : ∀ c ∈ exponent.head?, isExponentMark c = true := isExponentMark_head? hexponent
  have hboundary : ∀ c ∈ (fraction ++ exponent).head?, c.isDigit = false := by
    cases fraction with
    | nil =>
        intro c hc
        rw [List.nil_append] at hc
        exact isDigit_of_isExponentMark (hmark c hc)
    | cons d digits =>
        simp only [isFraction, Bool.and_eq_true, decide_eq_true_eq] at hfraction
        simp [hfraction.1]
  have hboundary' : ∀ c ∈ exponent.head?, (!isExponentMark c) = false := by
    intro c hc
    rw [hmark c hc, Bool.not_true]
  simp only [magnitude?, takeWhile_append_of_boundary hdigits hboundary,
    dropWhile_append_of_boundary hdigits hboundary,
    takeWhile_append_of_boundary hunmarked hboundary',
    dropWhile_append_of_boundary hunmarked hboundary', hwhole, hfraction, hexponent, and_self,
    dif_pos]

/-- A number begins with a minus sign or a digit. -/
theorem Numeral.exists_text_eq_cons (n : Numeral)
    : ∃ c tail, n.text = c :: tail ∧ (c = '-' ∨ c.isDigit = true) := by
  obtain ⟨c, tail, hwhole, hc⟩ := exists_of_isDigits (isDigits_of_isWhole n.isWhole_whole)
  unfold text
  split
  · exact ⟨'-', _, rfl, .inl rfl⟩
  · exact ⟨c, _, by rw [hwhole]; rfl, .inr hc⟩

theorem numeral?_eq_some_iff {cs : List Char} {n : Numeral}
    : numeral? cs = some n ↔ n.text = cs := by
  constructor
  · intro h
    unfold numeral? at h
    split at h
    all_goals
      obtain ⟨hnegative, rfl⟩ := magnitude?_sound h
      simp [Numeral.text, hnegative]
  · rintro rfl
    obtain ⟨c, tail, hwhole, hc⟩ := exists_of_isDigits (isDigits_of_isWhole n.isWhole_whole)
    have hread := magnitude?_append n
    unfold numeral? Numeral.text
    cases hnegative : n.negative with
    | true =>
        rw [hnegative] at hread
        simpa using hread
    | false =>
        rw [hnegative] at hread
        split
        next heq =>
          -- A digit is no minus sign.
          rw [hwhole] at heq
          cases heq
          cases hc
        next => simpa using hread

/-- The document that a text is as a single word or number. -/
def atomOf? : List Char → Option Tree
  | ['n', 'u', 'l', 'l'] => some .null
  | ['t', 'r', 'u', 'e'] => some (.bool true)
  | ['f', 'a', 'l', 's', 'e'] => some (.bool false)
  | cs => (numeral? cs).map Numeral.tree

/-- The characters of words and numbers. -/
def isAtomic (c : Char) : Bool :=
  c.isAlphanum || c = '-' || c = '+' || c = '.'

/-- A word or a number, which ends before the first character that none of them has. -/
def atom? : Reader Tree := fun cs =>
  (atomOf? (cs.takeWhile isAtomic)).map (·, cs.dropWhile isAtomic)

theorem atomOf?_eq_some_iff {cs : List Char} {t : Tree}
    : atomOf? cs = some t ↔ SpellsAtom cs t := by
  constructor
  · intro h
    unfold atomOf? at h
    split at h
    next => cases h; exact .nullWord
    next => cases h; exact .trueWord
    next => cases h; exact .falseWord
    next =>
      obtain ⟨n, hn, rfl⟩ := Option.map_eq_some_iff.mp h
      rw [← numeral?_eq_some_iff.mp hn]
      exact .number n
  · intro h
    cases h with
    | nullWord | trueWord | falseWord => rfl
    | number n =>
        obtain ⟨c, tail, htext, hc⟩ := n.exists_text_eq_cons
        have hread : numeral? n.text = some n := numeral?_eq_some_iff.mpr rfl
        unfold atomOf?
        split
        -- No word begins as a number does.
        iterate 3
          next heq =>
            cases htext.symm.trans heq
            rcases hc with hc | hc <;> cases hc
        next => rw [hread, Option.map_some]

theorem isAtomic_of_isDigit {c : Char} (h : c.isDigit = true) : isAtomic c = true := by
  simp [isAtomic, Char.isAlphanum, h]

theorem isAtomic_of_isExponentMark {c : Char} (h : isExponentMark c = true)
    : isAtomic c = true := by
  simp only [isExponentMark, Bool.or_eq_true, decide_eq_true_eq] at h
  rcases h with rfl | rfl <;> rfl

theorem isAtomic_of_mem_exponent {cs : List Char} (h : isExponent cs = true) {c : Char}
    (hc : c ∈ cs)
    : isAtomic c = true := by
  have hdigits {digits : List Char} (hd : isDigits digits = true) (hc : c ∈ digits)
      : isAtomic c = true :=
    isAtomic_of_isDigit (isDigit_of_isDigits hd hc)
  unfold isExponent at h
  split at h
  next => cases hc
  iterate 2
    next =>
      simp only [Bool.and_eq_true] at h
      simp only [List.mem_cons] at hc
      rcases hc with rfl | rfl | hc
      · exact isAtomic_of_isExponentMark h.1
      · rfl
      · exact hdigits h.2 hc
  next =>
    simp only [Bool.and_eq_true] at h
    rcases List.mem_cons.mp hc with rfl | hc
    · exact isAtomic_of_isExponentMark h.1
    · exact hdigits h.2 hc

theorem SpellsAtom.isAtomic_of_mem {text : List Char} {t : Tree} (h : SpellsAtom text t) {c : Char}
    (hc : c ∈ text)
    : isAtomic c = true := by
  cases h with
  | nullWord | trueWord | falseWord => exact List.all_eq_true.mp rfl c hc
  | number n =>
      simp only [Numeral.text, List.mem_append] at hc
      rcases hc with ((hc | hc) | hc) | hc
      · split at hc
        · rw [List.mem_singleton.mp hc]
          rfl
        · cases hc
      · exact isAtomic_of_isDigit
          (isDigit_of_isDigits (isDigits_of_isWhole n.isWhole_whole) hc)
      · rcases eq_point_or_isDigit_of_mem n.isFraction_fraction hc with rfl | hdigit
        · rfl
        · exact isAtomic_of_isDigit hdigit
      · exact isAtomic_of_mem_exponent n.isExponent_exponent hc

theorem SpellsAtom.exists_eq_cons {text : List Char} {t : Tree} (h : SpellsAtom text t)
    : ∃ c tail, text = c :: tail ∧ isAtomic c = true := by
  have hne : text ≠ [] := by
    cases h with
    | nullWord | trueWord | falseWord => exact List.cons_ne_nil _ _
    | number n =>
        obtain ⟨c, tail, htext, _⟩ := n.exists_text_eq_cons
        exact htext ▸ List.cons_ne_nil _ _
  obtain ⟨c, tail, rfl⟩ := List.exists_cons_of_ne_nil hne
  exact ⟨c, tail, rfl, h.isAtomic_of_mem List.mem_cons_self⟩

theorem atom?_sound {cs rest : List Char} {t : Tree} (h : atom? cs = some (t, rest))
    : ∃ text, SpellsAtom text t ∧ cs = text ++ rest := by
  obtain ⟨t, ht, heq⟩ := Option.map_eq_some_iff.mp h
  cases heq
  exact ⟨_, atomOf?_eq_some_iff.mp ht, List.takeWhile_append_dropWhile.symm⟩

theorem atom?_append {text rest : List Char} {t : Tree} (h : SpellsAtom text t)
    (hrest : ∀ c ∈ rest.head?, isAtomic c = false)
    : atom? (text ++ rest) = some (t, rest) := by
  have hatomic : ∀ c ∈ text, isAtomic c = true := fun _ => h.isAtomic_of_mem
  rw [atom?, takeWhile_append_of_boundary hatomic hrest,
    dropWhile_append_of_boundary hatomic hrest, atomOf?_eq_some_iff.mpr h, Option.map_some]

end DynamicOps.Json
