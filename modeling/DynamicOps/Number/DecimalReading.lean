import DynamicOps.Number.Binary
import DynamicOps.Text.Decimal

/-!
Reading floating numbers in decimal: an optional sign, then digits with at most one point and an
optional exponent, or one of the words for infinity and for no number, in either case. The number
is the one nearest to the exact decimal value.
-/

namespace DynamicOps.Binary

variable {f : Format}

/-- The nearest number to a decimal value. Powers of ten beyond those of two leave the format at
either end, so exponents beyond its range of powers need no exact arithmetic.
-/
def ofDecimal (negative : Bool) (significand : Nat) (exponent : Int) : Binary f :=
  let range : Int := (1 <<< f.exponentBits : Nat)
  if significand = 0 then ofRank negative 0
  else if range < exponent then ofRank negative f.infinity
  else if exponent + significand.log2 + 1 < -range then ofRank negative 0
  else ofRatio negative (significand * Nat.pow 10 exponent.toNat)
    (Nat.pow 10 (-exponent).toNat)

/-- A decimal exponent with an optional sign. -/
def exponent? : List Char → Option Int
  | '-' :: cs => (Text.natural? cs).map fun n => -(n : Int)
  | '+' :: cs => (Text.natural? cs).map Int.ofNat
  | cs => (Text.natural? cs).map Int.ofNat

/-- The exponent part of a decimal number: nothing, or a letter before an exponent. -/
def exponentPart? : List Char → Option Int
  | [] => some 0
  | 'e' :: cs => exponent? cs
  | 'E' :: cs => exponent? cs
  | _ => none

/-- An unsigned decimal number, which has at least one digit before or after the point. -/
def ofUnsigned? (negative : Bool) (cs : List Char) : Option (Binary f) :=
  let whole := cs.takeWhile Char.isDigit
  let (fraction, rest) := match cs.dropWhile Char.isDigit with
    | '.' :: after => (after.takeWhile Char.isDigit, after.dropWhile Char.isDigit)
    | after => ([], after)
  if whole.isEmpty && fraction.isEmpty then none
  else
    (exponentPart? rest).map fun exponent =>
      ofDecimal negative (Text.valueOf (whole ++ fraction)) (exponent - fraction.length)

/-- A number without its sign, in words or in digits. -/
def ofMagnitude? (negative : Bool) (cs : List Char) : Option (Binary f) :=
  let word := String.ofList (cs.map Char.toLower)
  if word = "inf" || word = "infinity" then some (ofRank negative f.infinity)
  else if word = "nan" then some nan
  else ofUnsigned? negative cs

/-- The number that a text stands for. -/
def ofText? : List Char → Option (Binary f)
  | '-' :: cs => ofMagnitude? true cs
  | '+' :: cs => ofMagnitude? false cs
  | cs => ofMagnitude? false cs

end DynamicOps.Binary
