import DynamicOps.Number.Binary

/-!
Arithmetic of binary floating numbers: the exact result of two finite operands, rounded once.
Operations without a meaningful result, such as the difference of two infinities, give no number.
-/

namespace DynamicOps.Binary

variable {f : Format}

/-- A sign and a magnitude as one integer. -/
def signed (negative : Bool) (magnitude : Nat) : Int :=
  if negative then -(magnitude : Int) else magnitude

/-- The sum of two numbers; a sum of zero is negative only when both operands are. -/
def add : Binary f → Binary f → Binary f
  | nan, _ => nan
  | _, nan => nan
  | number s a ha, number t b hb =>
    if a = f.infinity then
      if b = f.infinity && s != t then nan else number s a ha
    else if b = f.infinity then number t b hb
    else
      let unit := min (f.exponent a) (f.exponent b)
      let sum :=
        signed s (Format.scale (f.significand a) (f.exponent a - unit))
          + signed t (Format.scale (f.significand b) (f.exponent b - unit))
      if sum = 0 then ofRank (s && t) 0
      else ofScaled (sum < 0) sum.natAbs unit

/-- The difference of two numbers. -/
def subtract (x y : Binary f) : Binary f :=
  add x y.negate

/-- The product of two numbers. -/
def multiply : Binary f → Binary f → Binary f
  | nan, _ => nan
  | _, nan => nan
  | number s a _, number t b _ =>
    if a = f.infinity || b = f.infinity then
      if a = 0 || b = 0 then nan else ofRank (s != t) f.infinity
    else
      ofScaled (s != t) (f.significand a * f.significand b) (f.exponent a + f.exponent b)

/-- The quotient of two numbers; a nonzero number divided by zero is infinite. -/
def divide : Binary f → Binary f → Binary f
  | nan, _ => nan
  | _, nan => nan
  | number s a _, number t b _ =>
    if a = f.infinity then
      if b = f.infinity then nan else ofRank (s != t) f.infinity
    else if b = f.infinity then ofRank (s != t) 0
    else if b = 0 then
      if a = 0 then nan else ofRank (s != t) f.infinity
    else
      let unit := f.exponent a - f.exponent b
      ofRatio (s != t) (Format.scale (f.significand a) unit)
        (Format.scale (f.significand b) (-unit))

end DynamicOps.Binary
