import DynamicOps.Proofs.Text.Decimal
import DynamicOps.Time.Duration
import Mathlib.Data.List.TakeWhile

/-!
Durations as texts. A duration is written in whole seconds and, where there are nanoseconds left, as
many decimal places as they need; an empty one is written in days. The form leaves no choice.
-/

namespace DynamicOps.Duration

/-- The characters are nanoseconds as a part of a second: their nine decimal places after a point,
up to the zeros at the end.
-/
inductive IsFraction (nanos : Nat) : List Char → Prop
  | none (h : nanos = 0) : IsFraction nanos []
  | places {places : List Char} {zeros : Nat} (hnanos : nanos ≠ 0)
    (hplaces : Text.padded 9 nanos = places ++ List.replicate zeros '0')
    (hlast : places.getLast? ≠ some '0')
    : IsFraction nanos ('.' :: places)

/-- The text is a duration in seconds after `PT` and before `S`, with a sign in front if it is
negative, or `P0D` if it is empty.
-/
inductive HasText (d : Duration) : String → Prop
  | zero (h : d.nanos = 0) : HasText d "P0D"
  | forwards {seconds nanos : Nat} {fraction : List Char} (hne : d.nanos ≠ 0)
    (hnanos : nanos < 1000000000) (hd : d.nanos = seconds * 1000000000 + nanos)
    (hfraction : IsFraction nanos fraction)
    : HasText d ("PT" ++ String.ofList (Text.digits seconds ++ fraction) ++ "S")
  | backwards {seconds nanos : Nat} {fraction : List Char} (hne : d.nanos ≠ 0)
    (hnanos : nanos < 1000000000) (hd : d.nanos = -(seconds * 1000000000 + nanos))
    (hfraction : IsFraction nanos fraction)
    : HasText d ("-PT" ++ String.ofList (Text.digits seconds ++ fraction) ++ "S")

theorem isFraction_fraction (nanos : Nat) : IsFraction nanos (fraction nanos) := by
  rw [fraction]
  split
  next hnanos => exact .none hnanos
  next hnanos =>
    have hzeros : (Text.padded 9 nanos).reverse.takeWhile (· = '0')
        = List.replicate ((Text.padded 9 nanos).reverse.takeWhile (· = '0')).length '0' := by
      refine List.eq_replicate_iff.mpr ⟨rfl, fun c hc => ?_⟩
      simpa using List.mem_takeWhile_imp hc
    have hplaces : Text.padded 9 nanos
        = ((Text.padded 9 nanos).reverse.dropWhile (· = '0')).reverse
          ++ List.replicate ((Text.padded 9 nanos).reverse.takeWhile (· = '0')).length '0' := by
      rw [← List.reverse_inj, List.reverse_append, List.reverse_reverse, List.reverse_replicate,
        ← hzeros, List.takeWhile_append_dropWhile]
    have hlast : ((Text.padded 9 nanos).reverse.dropWhile (· = '0')).head? ≠ some '0' := by
      have hhead := List.head?_dropWhile_not (· = '0') (Text.padded 9 nanos).reverse
      intro h
      simp [h] at hhead
    exact .places hnanos hplaces (by simpa using hlast)

/-- The places of a fraction are those in front of the last zeros. -/
theorem IsFraction.eq_fraction {nanos : Nat} {cs : List Char} (h : IsFraction nanos cs)
    : cs = fraction nanos := by
  cases h with
  | none h => rw [fraction, if_pos h]
  | @places places zeros hnanos hplaces hlast =>
      have hzeros : ∀ c ∈ List.replicate zeros '0', decide (c = '0') = true := by
        intro c hc
        simpa using (List.mem_replicate.mp hc).2
      have hboundary : ∀ c ∈ places.reverse.head?, decide (c = '0') = false := by
        intro c hc
        rw [List.head?_reverse] at hc
        refine decide_eq_false fun hzero => hlast ?_
        rw [← hzero]
        exact hc
      rw [fraction, if_neg hnanos, hplaces, List.reverse_append, List.reverse_replicate,
        dropWhile_append_of_boundary hzeros hboundary, List.reverse_reverse]

/-- Every duration has one text, by cases on its direction. -/
theorem hasText_iff {d : Duration} {text : String} : d.HasText text ↔ text = d.text := by
  rw [Duration.text]
  constructor
  · intro h
    cases h with
    | zero h => rw [if_pos h]
    | @forwards seconds nanos fraction hne hnanos hd hfraction =>
        have hseconds : d.nanos.natAbs / 1000000000 = seconds := by omega
        have hrest : d.nanos.natAbs % 1000000000 = nanos := by omega
        have hsign : ¬ d.nanos < 0 := by omega
        simp only [hne, hsign, hseconds, hrest, hfraction.eq_fraction, if_false]
    | @backwards seconds nanos fraction hne hnanos hd hfraction =>
        have hseconds : d.nanos.natAbs / 1000000000 = seconds := by omega
        have hrest : d.nanos.natAbs % 1000000000 = nanos := by omega
        have hsign : d.nanos < 0 := by omega
        simp only [hne, hsign, hseconds, hrest, hfraction.eq_fraction, if_false, if_true]
  · rintro rfl
    have hnanos : d.nanos.natAbs % 1000000000 < 1000000000 := by omega
    split
    next hzero => exact .zero hzero
    next hne =>
      split
      next hsign => exact .backwards hne hnanos (by omega) (isFraction_fraction _)
      next hsign => exact .forwards hne hnanos (by omega) (isFraction_fraction _)

end DynamicOps.Duration
