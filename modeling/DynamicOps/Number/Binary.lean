import DynamicOps.Registry.Kind

/-!
Binary floating numbers of any interchange format. A number is its sign and the rank of its
magnitude among the magnitudes of the format, from zero over the subnormal and normal numbers to
infinity, so comparing magnitudes is comparing ranks. Rounding takes a ratio of natural numbers
to the nearest rank and prefers the even one of two.
-/

namespace DynamicOps

/-- An interchange format, by the bits of its fraction and of its exponent. -/
structure Format where
  fractionBits : Nat
  exponentBits : Nat
deriving DecidableEq

/-- The format of a floating precision. -/
def Precision.format : Precision → Format
  | single => ⟨23, 8⟩
  | double => ⟨52, 11⟩

namespace Format

/-- The number of fractions, which is also the significand of the least normal magnitude. -/
def fractions (f : Format) : Nat :=
  1 <<< f.fractionBits

/-- The rank of infinity, above that of every finite magnitude. -/
def infinity (f : Format) : Nat :=
  (1 <<< f.exponentBits - 1) * f.fractions

/-- The exponent of the least positive magnitude. -/
def leastExponent (f : Format) : Int :=
  2 - (1 <<< (f.exponentBits - 1) : Nat) - f.fractionBits

/-- The integer significand of a finite magnitude. -/
def significand (f : Format) (rank : Nat) : Nat :=
  if rank < f.fractions then rank else f.fractions + rank % f.fractions

/-- The exponent of two that scales the significand of a finite magnitude. -/
def exponent (f : Format) (rank : Nat) : Int :=
  if rank < f.fractions then f.leastExponent
  else f.leastExponent + (rank / f.fractions : Nat) - 1

/-- A natural number times a power of two, where the power is not negative. -/
def scale (n : Nat) (exponent : Int) : Nat :=
  n <<< exponent.toNat

/-- The binary logarithm of a positive ratio, rounded down. -/
def ratioLog (num den : Nat) : Int :=
  let estimate : Int := (num.log2 : Int) - den.log2
  if scale num (-estimate) < scale den estimate then estimate - 1 else estimate

/-- A quotient rounded to the nearest natural number, and to the even one in the middle. -/
def roundedQuotient (num den : Nat) : Nat :=
  let quotient := num / den
  let rest := num % den
  if 2 * rest < den then quotient
  else if den < 2 * rest then quotient + 1
  else quotient + quotient % 2

/-- The rank nearest to a ratio; ratios beyond the finite magnitudes go to infinity. -/
def nearest (f : Format) (num den : Nat) : Nat :=
  if num = 0 then 0
  else
    let unit := max f.leastExponent (ratioLog num den - f.fractionBits)
    min f.infinity
      ((unit - f.leastExponent).toNat * f.fractions
        + roundedQuotient (scale num (-unit)) (scale den unit))

end Format

/-- A floating number: not a number, or a sign and the rank of a magnitude. -/
inductive Binary (f : Format)
  | nan
  | number (negative : Bool) (rank : Nat) (rank_le : rank ≤ f.infinity)
deriving DecidableEq

/-- The numbers of double precision, the domain of floating arithmetic. -/
abbrev Binary64 :=
  Binary Precision.double.format

namespace Binary

variable {f : Format}

/-- The number with a sign and a rank; ranks above infinity become infinity. -/
def ofRank (negative : Bool) (rank : Nat) : Binary f :=
  .number negative (min rank f.infinity) (Nat.min_le_right rank f.infinity)

/-- The rank with the sign of the number, by which numbers are ordered. -/
def key? : Binary f → Option Int
  | nan => none
  | number negative rank _ => some (if negative then -(rank : Int) else rank)

/-- Numeric equality: zeros are equal, and nothing equals a value that is not a number. -/
def equal (x y : Binary f) : Bool :=
  match x.key?, y.key? with
  | some a, some b => a = b
  | _, _ => false

/-- Numeric order, false when either side is not a number. -/
def less (x y : Binary f) : Bool :=
  match x.key?, y.key? with
  | some a, some b => a < b
  | _, _ => false

/-- The nearest number to a signed ratio. -/
def ofRatio (negative : Bool) (num den : Nat) : Binary f :=
  ofRank negative (f.nearest num den)

/-- The nearest number to a significand times a power of two. -/
def ofScaled (negative : Bool) (significand : Nat) (exponent : Int) : Binary f :=
  ofRatio negative (Format.scale significand exponent) (Format.scale 1 (-exponent))

/-- The nearest number to an integer. -/
def ofInt (n : Int) : Binary f :=
  ofRatio (n < 0) n.natAbs 1

/-- The number in another format, rounded where that is narrower. -/
def convert {g : Format} : Binary f → Binary g
  | nan => nan
  | number negative rank _ =>
    if rank = f.infinity then ofRank negative g.infinity
    else ofScaled negative (f.significand rank) (f.exponent rank)

/-- The integer part of a number; infinities give a bound beyond every finite magnitude. -/
def truncate : Binary f → Int
  | nan => 0
  | number negative rank _ =>
    let magnitude : Nat :=
      Format.scale (f.significand rank) (f.exponent rank)
        / Format.scale 1 (-f.exponent rank)
    if negative then -(magnitude : Int) else magnitude

/-- The number with the other sign. -/
def negate : Binary f → Binary f
  | nan => nan
  | number negative rank h => number (!negative) rank h

end Binary

end DynamicOps
