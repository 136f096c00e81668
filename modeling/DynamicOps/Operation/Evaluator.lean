import DynamicOps.Operation.Application

/-!
Evaluators. Operators are applied under a tracer, which is told of every application twice: how it
was resolved, and then what it came to. Comparing the members of values tells the tracer nothing.
-/

namespace DynamicOps

/-- A record `σ` that is kept of the applications of operators. -/
class Tracer (σ ε : Type) where
  /-- Notes how an application was resolved. -/
  traceDispatch : σ → Operator → Value ε → Value ε → Route → σ
  /-- Notes what an application came to. -/
  traceResult : σ → Except OpError (Value ε) → σ

/-- The tracer that keeps no record. -/
instance (ε : Type) : Tracer Unit ε where
  traceDispatch s _ _ _ _ := s
  traceResult s _ := s

namespace Evaluator

variable {σ ε : Type} [Tracer σ ε]

/-- Tells the tracer how an application was resolved. -/
def traceDispatch (op : Operator) (lhs rhs : Value ε) (route : Route) : StateM σ Unit :=
  modify fun s => Tracer.traceDispatch s op lhs rhs route

/-- Tells the tracer what an application came to. -/
def traceResult (result : Except OpError (Value ε)) : StateM σ Unit :=
  modify fun s => Tracer.traceResult s result

variable [Extension ε]

/-- Resolves an application as one that nothing accepts. -/
def invalid (op : Operator) (lhs rhs : Value ε) : StateM σ OpError := do
  traceDispatch op lhs rhs .invalid
  return .invalid op lhs.typeName rhs.typeName

/-- Equality by its table, or structurally where the table has no case. -/
def equal (lhs rhs : Value ε) : StateM σ Bool := do
  let (route, verdict) :=
    match Verdict.ofTable? lhs rhs with
    | some verdict => (Route.table, verdict)
    | none => (Route.fallback, Verdict.structural lhs rhs)
  traceDispatch .equal lhs rhs route
  traceResult (.ok (.ofBool verdict.holds) : Except OpError (Value ε))
  return verdict.holds

/-- An ordering by its table. -/
def order (relation : Ordered) (lhs rhs : Value ε) : StateM σ (Except OpError Bool) := do
  let result ←
    match ordered? relation lhs rhs with
    | some answer => do
      traceDispatch (.order relation) lhs rhs .table
      pure (.ok answer)
    | none => Except.error <$> invalid (.order relation) lhs rhs
  traceResult (result.map Value.ofBool : Except OpError (Value ε))
  return result

/-- An arithmetic operator by its table. -/
def compute (operation : Arithmetic) (lhs rhs : Value ε)
    : StateM σ (Except OpError (Value ε)) := do
  let result ←
    match computed? operation lhs rhs with
    | some result => do
      traceDispatch (.compute operation) lhs rhs .table
      pure (result.map .scalar)
    | none => Except.error <$> invalid (.compute operation) lhs rhs
  traceResult result
  return result

/-- Any operator; the answer of a comparison is a truth value. -/
def apply (op : Operator) (lhs rhs : Value ε) : StateM σ (Except OpError (Value ε)) := do
  match op with
  | .equal => return .ok (.ofBool (← equal lhs rhs))
  | .order relation => return (← order relation lhs rhs).map .ofBool
  | .compute operation => compute operation lhs rhs

end Evaluator

end DynamicOps
