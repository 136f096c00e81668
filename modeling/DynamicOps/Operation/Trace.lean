import DynamicOps.Json.Value
import DynamicOps.Operation.Evaluator

/-!
Traced runs. A session applies operators one after the other and keeps a line for every dispatch,
a line for every error, and, unless it is terse, a line for every other result.
-/

namespace DynamicOps

/-- How much a trace shows. -/
inductive Verbosity
  /-- The operator and the route. -/
  | terse
  /-- The types of operands and results as well. -/
  | verbose
  /-- The values of operands and results as well. -/
  | veryVerbose
deriving DecidableEq

/-- A run of operators with the trace so far. -/
structure Session where
  verbosity : Verbosity
  lines : List String

namespace Session

/-- A session without any line. -/
def start (verbosity : Verbosity) : Session :=
  ⟨verbosity, []⟩

end Session

namespace Verbosity

variable {ε : Type} [Extension ε]

/-- A value as it appears in a trace. -/
def operand (v : Verbosity) (x : Value ε) : String :=
  if v = veryVerbose then x.display else x.typeName

/-- The line of a dispatch. -/
def dispatchLine (v : Verbosity) (op : Operator) (lhs rhs : Value ε) (route : Route) : String :=
  if v = terse then op.name ++ " -> " ++ route.name
  else
    op.name ++ ": " ++ v.operand lhs ++ " " ++ op.symbol ++ " " ++ v.operand rhs ++ " -> "
      ++ route.name

/-- The lines of a result. -/
def resultLines (v : Verbosity) : Except OpError (Value ε) → List String
  | .error e => ["  ! " ++ e.message]
  | .ok x => if v = terse then [] else ["  = " ++ v.operand x]

end Verbosity

/-- A session is a tracer that adds the lines it is to show. -/
instance (ε : Type) [Extension ε] : Tracer Session ε where
  traceDispatch s op lhs rhs route :=
    ⟨s.verbosity, s.lines ++ [s.verbosity.dispatchLine op lhs rhs route]⟩
  traceResult s result := ⟨s.verbosity, s.lines ++ s.verbosity.resultLines result⟩

/-- Applies an operator with the session as the tracer. -/
def Session.apply {ε : Type} [Extension ε] (s : Session) (op : Operator) (lhs rhs : Value ε)
    : Session × Except OpError (Value ε) :=
  let (result, next) := (Evaluator.apply op lhs rhs).run s
  (next, result)

end DynamicOps
