import DynamicOps.Literal.Basic
import DynamicOps.Operation.Trace

/-!
Evaluating an operator on two literals in a session. A refused literal ends the evaluation before
the operator is applied, so it adds no line to the trace.
-/

namespace DynamicOps

/-- Why an evaluation has no result. -/
inductive EvaluationError
  | literal (reason : LiteralError)
  | operator (reason : OpError)
deriving DecidableEq

/-- The text of an evaluation error. -/
def EvaluationError.message : EvaluationError → String
  | literal reason => reason.message
  | operator reason => reason.message

/-- Reads two literals, the left one first, and applies an operator to them. -/
def Session.evaluate {ε : Type} [Extension ε] (s : Session) (lhs : String) (op : Operator)
    (rhs : String) : Session × Except EvaluationError (Value ε) :=
  match (Literal.parse lhs : Except LiteralError (Value ε)) with
  | .error e => (s, .error (.literal e))
  | .ok x =>
    match Literal.parse rhs with
    | .error e => (s, .error (.literal e))
    | .ok y =>
      let (next, result) := s.apply op x y
      (next, result.mapError .operator)

end DynamicOps
