import DynamicOps.Registry.Operator

/-!
The errors of applying an operator.
-/

namespace DynamicOps

/-- Why an operator has no result. -/
inductive OpError
  /-- The operator accepts no operands of these types. -/
  | invalid (op : Operator) (lhs rhs : String)
  /-- An integer remainder by zero. -/
  | divisionByZero
  /-- An instant or a duration outside of its range. -/
  | overflow (op : Operator)
deriving DecidableEq

/-- The text of an operator error. -/
def OpError.message : OpError → String
  | invalid op lhs rhs => "invalid operation: " ++ lhs ++ " " ++ op.symbol ++ " " ++ rhs
  | divisionByZero => "integer division by zero"
  | overflow op => "`" ++ op.symbol ++ "` overflowed the time range"

end DynamicOps
