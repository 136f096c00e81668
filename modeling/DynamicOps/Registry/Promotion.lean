import DynamicOps.Registry.Operator

/-!
The promotion lattice: the kind that two operands are converted to before an operator combines
them. For arithmetic it is the kind of the result, for comparisons the domain of the comparison.
-/

namespace DynamicOps

/-- The kind both operands are converted to. Division yields `f64`; modulo yields `i64` and takes
integers only; otherwise a duration wins over a floating kind, and that over an integer kind.
-/
def promote (op : Operator) (lhs rhs : Kind) : Option Kind :=
  if !lhs.isArithmetic || !rhs.isArithmetic then none
  else if op = .compute .divide then some .f64
  else if op = .compute .modulo then
    if lhs.isInteger && rhs.isInteger then some .i64 else none
  else if lhs = .duration || rhs = .duration then some .duration
  else if lhs.isFloat || rhs.isFloat then some .f64
  else some .i64

end DynamicOps
