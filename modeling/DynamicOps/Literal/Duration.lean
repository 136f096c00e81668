import DynamicOps.Time.Duration

/-!
Duration literals: an optional sign before a lone zero or before components, each a number with a
unit. Components are added up, and neither a component nor a sum may leave the range.
-/

namespace DynamicOps.Duration

/-- The nanoseconds of a unit; the micro sign may stand for `u`. -/
def unit? : List Char → Option Nat
  | ['n', 's'] => some 1
  | ['u', 's'] => some 1000
  | ['\u00b5', 's'] => some 1000
  | ['m', 's'] => some 1000000
  | ['s'] => some 1000000000
  | ['m'] => some 60000000000
  | ['h'] => some 3600000000000
  | _ => none

/-- A component of digits and a unit; the number has to fit 63 bits. -/
def component? (digits unit : List Char) : Option Duration := do
  let amount := Text.valueOf digits
  let nanos ← unit? unit
  if amount < 9223372036854775808 then ofNanos? (amount * nanos : Nat) else none

/-- Adds the components of a text to a sum; each begins with a digit. -/
def components? (sum : Duration) : List Char → Option Duration
  | [] => some sum
  | c :: cs =>
    if c.isDigit then do
      let rest := cs.dropWhile Char.isDigit
      let part ← component? (c :: cs.takeWhile Char.isDigit) (rest.takeWhile (!·.isDigit))
      components? (← sum.add? part) (rest.dropWhile (!·.isDigit))
    else none
termination_by cs => cs.length
decreasing_by
  have := (List.dropWhile_sublist Char.isDigit : (cs.dropWhile _).Sublist cs).length_le
  have := (List.dropWhile_sublist (!Char.isDigit ·)
    : ((cs.dropWhile Char.isDigit).dropWhile _).Sublist _).length_le
  simp only [List.length_cons]
  omega

/-- A duration without a sign: a lone zero, or at least one component. -/
def ofUnsigned? : List Char → Option Duration
  | [] => none
  | ['0'] => some zero
  | cs => components? zero cs

/-- The duration that a text stands for. -/
def ofText? : List Char → Option Duration
  | '-' :: cs => (ofUnsigned? cs).map negate
  | '+' :: cs => ofUnsigned? cs
  | cs => ofUnsigned? cs

end DynamicOps.Duration
