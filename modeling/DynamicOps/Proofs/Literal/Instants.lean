import DynamicOps.Json.Value
import DynamicOps.Proofs.Literal.Typed
import DynamicOps.Proofs.Time.Timestamps
import Mathlib.Data.List.Basic

/-!
Printed instants read back. The JSON text of an instant holds its timestamp between quotes without
any escape, and as the payload of a literal this timestamp is read as the instant again.
-/

namespace DynamicOps

namespace Json

theorem escape_of_isDigit {c : Char} (h : c.isDigit = true) : escape c = [c] := by
  have hne {d : Char} (hd : d.isDigit = false) : c ≠ d := by
    rintro rfl
    cases h.symm.trans hd
  have hcontrol : 32 ≤ c.toNat := by
    simp only [Char.isDigit, Bool.and_eq_true, decide_eq_true_eq] at h
    have hzero : '0'.val.toNat ≤ c.val.toNat := UInt32.le_iff_toNat_le.mp h.1
    exact Nat.le_trans (by decide) hzero
  simp [escape, hne, hcontrol]

/-- A text stands between its quotes as it is when none of its characters is escaped. -/
theorem quote_of_plain {cs : List Char} (h : ∀ c ∈ cs, escape c = [c])
    : quote (String.ofList cs) = '"' :: cs ++ ['"'] := by
  rw [quote, String.toList_ofList, List.flatMap_congr h, List.flatMap_singleton']

end Json

theorem Timestamp.escape_eq {t : Instant} {c : Char} (h : c ∈ render t)
    : Json.escape c = [c] := by
  rcases isDigit_or_mem_marks h with hdigit | hmark
  · exact Json.escape_of_isDigit hdigit
  · simp only [marks, List.mem_cons, List.not_mem_nil, or_false] at hmark
    rcases hmark with rfl | rfl | rfl | rfl | rfl | rfl <;> rfl

variable {ε : Type}

theorem json_instant [Extension ε] (t : Instant)
    : (Value.scalar ⟨.instant, t⟩ : Value ε).json
      = "\"" ++ String.ofList (Timestamp.render t) ++ "\"" := by
  have hquote : (Value.scalar ⟨.instant, t⟩ : Value ε).tree.render
      = '"' :: Timestamp.render t ++ ['"'] := Json.quote_of_plain fun _ => Timestamp.escape_eq
  rw [Value.json, hquote]
  apply String.toList_inj.mp
  simp

/-- The JSON text of every instant is a string that is read as the instant when it is given as its
literal, exactly for the years of four digits; the others are printed with a sign and refused.
-/
theorem printed_instants_read_back [Extension ε] (t : Instant)
    : ∃ s : String,
        (Value.scalar ⟨.instant, t⟩ : Value ε).json = "\"" ++ s ++ "\""
        ∧ @Literal.parse ε (Literal.typed .instant s)
          = if Timestamp.InPrintedYears t then .ok (.scalar ⟨.instant, t⟩)
            else .error (.invalid .instant s) := by
  refine ⟨String.ofList (Timestamp.render t), json_instant t, ?_⟩
  have hread : Kind.instant.payload? (String.ofList (Timestamp.render t))
      = if Timestamp.InPrintedYears t then some t else none :=
    (Kind.payload?_instant _).trans (Timestamp.parse?_render t)
  split
  next h =>
    rw [if_pos h] at hread
    exact Literal.parse_of_payload? hread
  next h =>
    rw [if_neg h] at hread
    exact Literal.parse_of_payload?_eq_none hread

/-- The middle of a leap second at the end of a year. -/
theorem printed_instants_read_back_leap_second
    : @Literal.parse Labelled "instant:2016-12-31T23:59:60.500Z"
      = .ok (.scalar ⟨.instant,
          ⟨1483228799, 1500000000, by decide, by decide, by decide, by decide⟩⟩) := by
  obtain ⟨s, hjson, hparse⟩ := @printed_instants_read_back Labelled _
    ⟨1483228799, 1500000000, by decide, by decide, by decide, by decide⟩
  obtain rfl : s = "2016-12-31T23:59:60.500Z" := by
    have htext : "\"" ++ s ++ "\"" = "\"" ++ "2016-12-31T23:59:60.500Z" ++ "\"" :=
      hjson.symm.trans (by decide +kernel)
    rwa [String.append_left_inj, String.append_right_inj] at htext
  rwa [if_pos (by decide)] at hparse

end DynamicOps
