import DynamicOps.Json.Tree
import DynamicOps.Number.Shortest

/-!
The decimal text of floating numbers in JSON: the shortest digits, with a point or an exponent in
every number. Infinities and values that are no number have no text and become null.
-/

namespace DynamicOps.Json

/-- The decimal exponents of a leading digit that are written without an exponent. -/
structure PlainRange where
  least : Int
  greatest : Int

/-- Single precision writes numbers from 10^-6 up to 10^13 plainly, double precision from 10^-5
up to 10^16.
-/
def plainRange : Precision → PlainRange
  | .single => ⟨-6, 12⟩
  | .double => ⟨-5, 15⟩

/-- Digits with a point after the first so many, and a zero where a side would be empty. -/
def plain (digits : List Char) (exponent : Int) : List Char :=
  if 0 ≤ exponent then digits ++ List.replicate exponent.toNat '0' ++ ['.', '0']
  else
    let places := exponent.natAbs
    if places < digits.length then
      digits.take (digits.length - places) ++ '.' :: digits.drop (digits.length - places)
    else '0' :: '.' :: List.replicate (places - digits.length) '0' ++ digits

/-- Digits with a point after the first one, and a signed exponent. -/
def scientific (digits : List Char) (exponent : Int) : List Char :=
  let mantissa := match digits with
    | first :: second :: rest => first :: '.' :: second :: rest
    | short => short
  mantissa ++ 'e' :: (if exponent < 0 then '-' else '+') :: Text.digits exponent.natAbs

/-- The text of a positive decimal. -/
def decimalText (range : PlainRange) (d : Decimal) : List Char :=
  let digits := Text.digits d.significand
  let leading := d.exponent + digits.length - 1
  if range.least ≤ leading ∧ leading ≤ range.greatest then plain digits d.exponent
  else scientific digits leading

/-- A floating number as a document. -/
def number (p : Precision) : Binary p.format → Tree
  | .nan => .null
  | .number negative rank _ =>
    if rank = p.format.infinity then .null
    else
      let magnitude :=
        if rank = 0 then ['0', '.', '0']
        else decimalText (plainRange p) (shortestDecimal p.format rank)
      .decimal (if negative then '-' :: magnitude else magnitude)

end DynamicOps.Json
