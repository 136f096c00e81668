/-!
Decimal numbers as lists of characters: digits of natural numbers, signed integers, fixed widths,
and reading digits back. Only the ten ASCII digits count as digits.
-/

namespace DynamicOps.Text

/-- The decimal digits of a natural number, without leading zeros. -/
def digits (n : Nat) : List Char :=
  Nat.toDigits 10 n

/-- An integer in decimal, a negative one after a minus sign. -/
def integer (n : Int) : List Char :=
  if n < 0 then '-' :: digits n.natAbs else digits n.natAbs

/-- The digits of a natural number, filled with zeros on the left up to a width. -/
def padded (width n : Nat) : List Char :=
  List.replicate (width - (digits n).length) '0' ++ digits n

/-- The value of a list of digits; no digits have the value zero. -/
def valueOf (cs : List Char) : Nat :=
  Nat.ofDigitChars 10 cs 0

/-- The natural number that a nonempty list of digits stands for. -/
def natural? (cs : List Char) : Option Nat :=
  if cs.isEmpty || !cs.all Char.isDigit then none else some (valueOf cs)

end DynamicOps.Text
