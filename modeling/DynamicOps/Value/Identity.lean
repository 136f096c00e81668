import DynamicOps.Value.Basic

/-!
Identity of values: the same variant with the same payload, element by element. It neither
promotes kinds nor looks through references, but floating payloads compare as numbers, so that a
value with a payload that is not a number is not identical to itself.
-/

namespace DynamicOps

/-- Two homogeneous sequences have the same kind, the same length, and equal elements. -/
def TypedArray.same (a b : TypedArray) : Bool :=
  (a.equal? b).getD false

/-- Two references are nil of the same kind or have the same target. -/
def Reference.same : Reference → Reference → Bool
  | nil k, nil l => k = l
  | present s, present t => s.same t
  | _, _ => false

namespace Value

variable {ε : Type} [Extension ε]

mutual

/-- Two values are identical as representations. -/
def same : Value ε → Value ε → Bool
  | nil, nil => true
  | scalar s, scalar t => s.same t
  | array a, array b => a.same b
  | list xs, list ys => sameItems xs ys
  | record xs, record ys => sameFields xs ys
  | ref r, ref s => r.same s
  | extension x, extension y => Extension.equals x y
  | _, _ => false

/-- Two lists of values are identical element by element. -/
def sameItems : List (Value ε) → List (Value ε) → Bool
  | [], [] => true
  | x :: xs, y :: ys => same x y && sameItems xs ys
  | _, _ => false

/-- Two lists of fields have the same names and identical values in the same order. -/
def sameFields : List (String × Value ε) → List (String × Value ε) → Bool
  | [], [] => true
  | (m, x) :: xs, (n, y) :: ys => m = n && same x y && sameFields xs ys
  | _, _ => false

end

end Value

end DynamicOps
