import DynamicOps.Registry.Kind

/-!
Integers of the fixed-width kinds. A word carries the proof that it lies in the range of its
kind; arithmetic wraps around at the ends of the range of the 64-bit signed kind.
-/

namespace DynamicOps

/-- An integer in the range of an integer kind. -/
structure Word (k : IntKind) where
  val : Int
  least_le : k.least ≤ val
  le_greatest : val ≤ k.greatest
deriving DecidableEq

/-- The 64-bit signed words, the domain of integer arithmetic. -/
abbrev Word64 :=
  Word (.signed .w64)

namespace Word

/-- The word of a kind with a given value, if that is in range. -/
def ofInt? (k : IntKind) (n : Int) : Option (Word k) :=
  if h : k.least ≤ n ∧ n ≤ k.greatest then some ⟨n, h.1, h.2⟩ else none

/-- The 64-bit signed word that is congruent to an integer modulo the count of such words. -/
def wrap (n : Int) : Word64 where
  val := n.bmod 18446744073709551616
  least_le := by
    have h : -(18446744073709551616 / 2 : Int) ≤ n.bmod 18446744073709551616 :=
      Int.le_bmod (by decide)
    simp only [IntKind.least, Width.count]
    omega
  le_greatest := by
    have h : n.bmod 18446744073709551616 < (18446744073709551616 + 1 : Int) / 2 :=
      Int.bmod_lt (by decide)
    simp only [IntKind.greatest, Width.count]
    omega

/-- The 64-bit signed word nearest to an integer. -/
def saturate (n : Int) : Word64 where
  val := max (-9223372036854775808) (min n 9223372036854775807)
  least_le := by
    simp only [IntKind.least, Width.count]
    omega
  le_greatest := by
    simp only [IntKind.greatest, Width.count]
    omega

/-- The sum of two words, wrapped around. -/
def add (x y : Word64) : Word64 :=
  wrap (x.val + y.val)

/-- The difference of two words, wrapped around. -/
def subtract (x y : Word64) : Word64 :=
  wrap (x.val - y.val)

/-- The product of two words, wrapped around. -/
def multiply (x y : Word64) : Word64 :=
  wrap (x.val * y.val)

/-- The remainder of two words with the sign of the first; a zero divisor has none. -/
def remainder? (x y : Word64) : Option Word64 :=
  if y.val = 0 then none else some (wrap (x.val.tmod y.val))

end Word

end DynamicOps
