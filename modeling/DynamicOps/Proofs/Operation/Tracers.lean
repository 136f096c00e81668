import DynamicOps.Operation.Trace

/-!
Tracers see every application and change none. Whatever record is kept, an application notes its
route once, and then once its result, which is the one it has without a record. In a session these
are the lines of one block.
-/

namespace DynamicOps

variable {σ ε : Type} [Tracer σ ε] [Extension ε]

namespace Evaluator

/-- The record after an application: its route was noted, and then its result. -/
def noted (s : σ) (op : Operator) (lhs rhs : Value ε) (app : Application ε) : σ :=
  Tracer.traceResult (Tracer.traceDispatch s op lhs rhs app.route) app.result

/-- Equality is resolved through its table or around it, by cases on the table's verdict. -/
theorem run_equal (lhs rhs : Value ε) (s : σ)
    : (equal lhs rhs).run s
      = (DynamicOps.equal lhs rhs, noted s .equal lhs rhs (dispatch .equal lhs rhs)) := by
  have hholds := Verdict.holds_of lhs rhs
  rw [Verdict.of] at hholds
  rw [equal, dispatch, equalRoute]
  cases htable : Verdict.ofTable? lhs rhs with
  | some verdict =>
      rw [htable, Option.getD_some] at hholds
      rw [← hholds]
      rfl
  | none =>
      rw [htable, Option.getD_none] at hholds
      rw [← hholds]
      rfl

theorem run_order (relation : Ordered) (lhs rhs : Value ε) (s : σ)
    : ((fun result => result.map Value.ofBool) <$> order relation lhs rhs).run s
      = (DynamicOps.apply (.order relation) lhs rhs,
          noted s (.order relation) lhs rhs (dispatch (.order relation) lhs rhs)) := by
  rw [order, DynamicOps.apply, dispatch]
  cases ordered? relation lhs rhs <;> rfl

theorem run_compute (o : Arithmetic) (lhs rhs : Value ε) (s : σ)
    : (compute o lhs rhs).run s
      = (DynamicOps.apply (.compute o) lhs rhs,
          noted s (.compute o) lhs rhs (dispatch (.compute o) lhs rhs)) := by
  rw [compute, DynamicOps.apply, dispatch]
  cases computed? o lhs rhs <;> rfl

/-- No tracer changes a result, and every tracer is told the same, by cases on the group of the
operator.
-/
theorem run_apply (op : Operator) (lhs rhs : Value ε) (s : σ)
    : (apply op lhs rhs).run s
      = (DynamicOps.apply op lhs rhs, noted s op lhs rhs (dispatch op lhs rhs)) := by
  cases op with
  | equal =>
      have h := run_equal lhs rhs s
      rw [apply, StateT.run_bind, h]
      rfl
  | order relation => exact run_order relation lhs rhs s
  | compute o => exact run_compute o lhs rhs s

/-- Without a record an operator is just applied. -/
theorem run_apply_unit (op : Operator) (lhs rhs : Value ε)
    : (apply op lhs rhs).run () = (DynamicOps.apply op lhs rhs, ()) :=
  run_apply op lhs rhs ()

end Evaluator

/-- A session adds the line of the dispatch and then those of the result. -/
theorem Session.apply_eq (s : Session) (op : Operator) (lhs rhs : Value ε)
    : s.apply op lhs rhs
      = (⟨s.verbosity,
            s.lines
              ++ s.verbosity.dispatchLine op lhs rhs (dispatch op lhs rhs).route
              :: s.verbosity.resultLines (dispatch op lhs rhs).result⟩,
          (dispatch op lhs rhs).result) := by
  rw [apply, Evaluator.run_apply, List.append_cons]
  rfl

end DynamicOps
