import DynamicOps.Proofs.Json.Grammar

/-!
Reading strings of JSON texts. A reader takes what it reads from the front of a text and leaves the
rest. It reads a spelling in front of any text that does not continue it, and whatever it reads was
spelled.
-/

namespace DynamicOps.Json

/-- Reads something from the front of a text, and leaves the rest. -/
abbrev Reader (α : Type) : Type :=
  List Char → Option (α × List Char)

/-- The character with a number, which surrogates are not. -/
def scalarValue? (n : Nat) : Option Char :=
  if (Char.ofNat n).toNat = n then some (Char.ofNat n) else none

/-- A character given by its code unit or by a pair of them, after the letter of the escape. -/
def unit? : Reader Char := fun cs => do
  let unit ← codeUnit? (cs.take 4)
  if isHighSurrogate unit then
    match cs.drop 4 with
    | '\\' :: 'u' :: cs => do
      let low ← codeUnit? (cs.take 4)
      if isLowSurrogate low then
        let c ← scalarValue? (pairValue unit low)
        some (c, cs.drop 4)
      else none
    | _ => none
  else
    let c ← scalarValue? unit
    some (c, cs.drop 4)

/-- A character within a string; a quote is none, because it ends the string. -/
def character? : Reader Char
  | [] => none
  | c :: cs =>
    if c = '\\' then
      match cs with
      | [] => none
      | l :: cs => if l = 'u' then unit? cs else (escaped? l).map (·, cs)
    else if c = '"' || c.toNat < 32 then none
    else some (c, cs)

theorem scalarValue?_eq_some_iff {n : Nat} {c : Char}
    : scalarValue? n = some c ↔ c.toNat = n := by
  unfold scalarValue?
  constructor
  · intro h
    split at h
    next hn =>
      cases h
      exact hn
    next => cases h
  · rintro rfl
    rw [Char.ofNat_toNat, if_pos rfl]

theorem length_of_codeUnit? {digits : List Char} {n : Nat} (h : codeUnit? digits = some n)
    : digits.length = 4 := by
  unfold codeUnit? at h
  split at h
  · rfl
  · cases h

/-- Four digits are taken from the front of any text. -/
theorem codeUnit?_take_append {digits : List Char} {n : Nat} (h : codeUnit? digits = some n)
    (rest : List Char)
    : codeUnit? ((digits ++ rest).take 4) = some n ∧ (digits ++ rest).drop 4 = rest := by
  have hlength := length_of_codeUnit? h
  exact ⟨by rw [List.take_left' hlength, h], List.drop_left' hlength⟩

theorem unit?_sound {cs rest : List Char} {c : Char} (h : unit? cs = some (c, rest))
    : ∃ text, SpellsCharacter ('\\' :: 'u' :: text) c ∧ cs = text ++ rest := by
  unfold unit? at h
  simp only [Option.bind_eq_bind, Option.bind_eq_some_iff] at h
  obtain ⟨unit, hunit, h⟩ := h
  split at h
  next hhigh =>
    split at h
    next tail htail =>
      simp only [Option.bind_eq_some_iff] at h
      obtain ⟨low, hlow, h⟩ := h
      split at h
      next hislow =>
        simp only [Option.bind_eq_some_iff, Option.some.injEq, Prod.mk.injEq] at h
        obtain ⟨c, hc, rfl, rfl⟩ := h
        refine ⟨cs.take 4 ++ '\\' :: 'u' :: tail.take 4, ?_, ?_⟩
        · exact .pair hunit hhigh hlow hislow (scalarValue?_eq_some_iff.mp hc)
        · rw [List.append_assoc, List.cons_append, List.cons_append, List.take_append_drop,
            ← htail, List.take_append_drop]
      next => cases h
    next => cases h
  next =>
    simp only [Option.bind_eq_some_iff, Option.some.injEq, Prod.mk.injEq] at h
    obtain ⟨c, hc, rfl, rfl⟩ := h
    refine ⟨cs.take 4, .unit ?_, (List.take_append_drop 4 cs).symm⟩
    rw [hunit, scalarValue?_eq_some_iff.mp hc]

theorem character?_sound {cs rest : List Char} {c : Char} (h : character? cs = some (c, rest))
    : ∃ text, SpellsCharacter text c ∧ cs = text ++ rest := by
  unfold character? at h
  split at h
  next => cases h
  next d ds =>
    split at h
    next hbackslash =>
      subst hbackslash
      split at h
      next => cases h
      next l ls =>
        split at h
        next hu =>
          subst hu
          obtain ⟨text, htext, rfl⟩ := unit?_sound h
          exact ⟨_, htext, rfl⟩
        next =>
          obtain ⟨e, he, heq⟩ := Option.map_eq_some_iff.mp h
          cases heq
          exact ⟨_, .letter he, rfl⟩
    next hbackslash =>
      split at h
      next => cases h
      next hplain =>
        simp only [Bool.or_eq_true, decide_eq_true_eq, not_or, Nat.not_lt] at hplain
        cases h
        exact ⟨_, .plain hplain.1 hbackslash hplain.2, rfl⟩

theorem isHighSurrogate_toNat (c : Char) : isHighSurrogate c.toNat = false := by
  have hvalid := c.valid
  simp only [UInt32.isValidChar, Nat.isValidChar, Char.toNat_val] at hvalid
  simp only [isHighSurrogate, Bool.and_eq_false_iff, decide_eq_false_iff_not]
  omega

/-- A spelling of a character is read in front of any text, by cases on how it is spelled. -/
theorem character?_append {text : List Char} {c : Char} (h : SpellsCharacter text c)
    (rest : List Char)
    : character? (text ++ rest) = some (c, rest) := by
  cases h with
  | plain hquote hbackslash hcontrol =>
      simp [character?, hquote, hbackslash, hcontrol]
  | @letter l c h =>
      have hl : l ≠ 'u' := by
        rintro rfl
        cases h
      simp [character?, hl, h]
  | @unit digits c h =>
      obtain ⟨htake, hdrop⟩ := codeUnit?_take_append h rest
      have hhigh := isHighSurrogate_toNat c
      have hc : scalarValue? c.toNat = some c := scalarValue?_eq_some_iff.mpr rfl
      simp [character?, unit?, htake, hdrop, hhigh, hc]
  | @pair first second high low c hfirst hhigh hsecond hlow hc =>
      obtain ⟨htake, hdrop⟩ := codeUnit?_take_append hfirst ('\\' :: 'u' :: (second ++ rest))
      obtain ⟨htake', hdrop'⟩ := codeUnit?_take_append hsecond rest
      have hc' : scalarValue? (pairValue high low) = some c := scalarValue?_eq_some_iff.mpr hc
      simp [character?, unit?, htake, hdrop, hhigh, htake', hdrop', hlow, hc']

/-- At most so many characters up to the closing quote of a string. -/
def characters? : Nat → Reader (List Char)
  | 0, _ => none
  | bound + 1, cs =>
    match character? cs with
    | some (c, rest) => (characters? bound rest).map fun (s, rest) => (c :: s, rest)
    | none =>
      match cs with
      | '"' :: rest => some ([], rest)
      | _ => none

/-- A string between its quotes. -/
def string? : Reader String
  | '"' :: cs => (characters? cs.length cs).map fun (s, rest) => (String.ofList s, rest)
  | _ => none

/-- Characters that are read were spelled before a quote, by induction over their number. -/
theorem characters?_sound {bound : Nat} {cs s rest : List Char}
    (h : characters? bound cs = some (s, rest))
    : ∃ inner, SpellsCharacters inner s ∧ cs = inner ++ '"' :: rest := by
  induction bound generalizing cs s with
  | zero => cases h
  | succ bound ih =>
      unfold characters? at h
      split at h
      next c tail hc =>
        obtain ⟨⟨s, rest⟩, hs, heq⟩ := Option.map_eq_some_iff.mp h
        cases heq
        obtain ⟨text, htext, rfl⟩ := character?_sound hc
        obtain ⟨inner, hinner, rfl⟩ := ih hs
        exact ⟨text ++ inner, .cons htext hinner, by rw [List.append_assoc]⟩
      next =>
        split at h
        next =>
          cases h
          exact ⟨[], .nil, rfl⟩
        next => cases h

/-- Spelled characters are read up to the quote after them, by induction over the spellings. -/
theorem characters?_append {inner s : List Char} (h : SpellsCharacters inner s) {bound : Nat}
    (hbound : s.length < bound) (rest : List Char)
    : characters? bound (inner ++ '"' :: rest) = some (s, rest) := by
  induction h generalizing bound with
  | nil =>
      obtain _ | bound := bound
      · cases hbound
      · have hquote : character? ('"' :: rest) = none := by simp [character?]
        simp [characters?, hquote]
  | @cons text texts c cs hc hcs ih =>
      obtain _ | bound := bound
      · cases hbound
      · have hread := character?_append hc (texts ++ '"' :: rest)
        have htail := ih (Nat.lt_of_succ_lt_succ hbound)
        simp [characters?, List.append_assoc, hread, htail]

theorem SpellsCharacter.ne_nil {text : List Char} {c : Char} (h : SpellsCharacter text c)
    : text ≠ [] := by
  cases h <;> simp

/-- No character is spelled by nothing, so a spelling is as long as what it spells. -/
theorem SpellsCharacters.length_le {inner s : List Char} (h : SpellsCharacters inner s)
    : s.length ≤ inner.length := by
  induction h with
  | nil => exact Nat.le_refl _
  | cons hc _ ih =>
      have hpos := List.length_pos_iff.mpr hc.ne_nil
      rw [List.length_append, List.length_cons]
      omega

theorem string?_sound {cs rest : List Char} {s : String} (h : string? cs = some (s, rest))
    : ∃ text, SpellsString text s ∧ cs = text ++ rest := by
  unfold string? at h
  split at h
  next cs =>
    obtain ⟨⟨characters, rest⟩, hread, heq⟩ := Option.map_eq_some_iff.mp h
    cases heq
    obtain ⟨inner, hinner, rfl⟩ := characters?_sound hread
    refine ⟨'"' :: inner ++ ['"'], ⟨inner, ?_, rfl⟩, by simp⟩
    rwa [String.toList_ofList]
  next => cases h

theorem string?_append {text : List Char} {s : String} (h : SpellsString text s)
    (rest : List Char)
    : string? (text ++ rest) = some (s, rest) := by
  obtain ⟨inner, hinner, rfl⟩ := h
  have hbound : s.toList.length < (inner ++ '"' :: rest).length := by
    rw [List.length_append, List.length_cons]
    have hlength := hinner.length_le
    omega
  have hread := characters?_append hinner hbound rest
  simp only [List.cons_append, List.append_assoc, List.nil_append, string?, hread, Option.map_some,
    String.ofList_toList]

end DynamicOps.Json
