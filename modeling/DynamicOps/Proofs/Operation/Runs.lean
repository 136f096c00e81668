import DynamicOps.Literal.Evaluation
import DynamicOps.Proofs.Arithmetic.Outcomes

/-!
Traces of whole runs. A session only ever adds lines, one block for each step, and gives out the
results that the operators have on their own. The block of a step opens with the one line that is
not indented, and that line reports how the step was resolved.
-/

namespace DynamicOps

/-- An operator and its operands. -/
structure Step (ε : Type) where
  op : Operator
  lhs : Value ε
  rhs : Value ε

variable {ε : Type} [Extension ε]

namespace Step

/-- The result of a step outside of any session. -/
def result (step : Step ε) : Except OpError (Value ε) :=
  apply step.op step.lhs step.rhs

/-- The step ends in an error. -/
def fails (step : Step ε) : Bool :=
  !step.result.isOk

/-- The line of the step's dispatch. -/
def opening (v : Verbosity) (step : Step ε) : String :=
  v.dispatchLine step.op step.lhs step.rhs (dispatch step.op step.lhs step.rhs).route

/-- All lines of the step. -/
def block (v : Verbosity) (step : Step ε) : List String :=
  step.opening v :: v.resultLines step.result

end Step

/-- A step adds its block to a session and has its result. -/
theorem Step.apply_eq (s : Session) (step : Step ε)
    : s.apply step.op step.lhs step.rhs
      = (⟨s.verbosity, s.lines ++ step.block s.verbosity⟩, step.result) :=
  s.apply_eq step.op step.lhs step.rhs

/-- Applies the operator of each step in turn, and collects the results. -/
def Session.run (s : Session) : List (Step ε) → Session × List (Except OpError (Value ε))
  | [] => (s, [])
  | step :: steps =>
    let (next, result) := s.apply step.op step.lhs step.rhs
    let (last, results) := next.run steps
    (last, result :: results)

/-- A run adds the blocks of its steps and has their results, by induction over the steps. -/
theorem Session.run_eq (s : Session) (steps : List (Step ε))
    : s.run steps
      = (⟨s.verbosity, s.lines ++ steps.flatMap (Step.block s.verbosity)⟩,
          steps.map Step.result) := by
  induction steps generalizing s with
  | nil => simp [run]
  | cons step steps ih =>
      rw [run, step.apply_eq]
      simp only [ih, List.flatMap_cons, List.map_cons, List.append_assoc]

theorem Session.lines_prefix_run (s : Session) (before after : List (Step ε))
    : (s.run before).1.lines <+: (s.run (before ++ after)).1.lines := by
  simp only [run_eq, List.flatMap_append, ← List.append_assoc]
  exact List.prefix_append _ _

theorem op_eq_equal_of_fallback {op : Operator} {lhs rhs : Value ε}
    (h : (dispatch op lhs rhs).route = .fallback)
    : op = .equal := by
  rw [route_dispatch] at h
  split_ifs at h with _ hop
  exact hop

/-- An invalid operation never comes out of a table, by cases on the group of the operator. -/
theorem route_eq_invalid_iff {op : Operator} {lhs rhs : Value ε}
    : (dispatch op lhs rhs).route = .invalid
      ↔ ∃ other a b, (dispatch op lhs rhs).result = .error (.invalid other a b) := by
  refine ⟨fun h => ⟨_, _, _, result_of_route_invalid h⟩, ?_⟩
  rintro ⟨other, a, b, h⟩
  cases op with
  | equal => cases h
  | order relation =>
      rw [dispatch] at h ⊢
      cases hordered : ordered? relation lhs rhs with
      | none => rfl
      | some answer =>
          rw [hordered] at h
          cases h
  | compute o =>
      rw [dispatch] at h ⊢
      cases hcomputed : computed? o lhs rhs with
      | none => rfl
      | some result =>
          rw [hcomputed] at h
          obtain ⟨s, t, body, rfl, rfl, hbody, hresult⟩ := computed?_eq_some_iff.mp hcomputed
          cases Arithmetic.outcome_of_compute? hbody hresult <;> cases h

/-- An error other than that of an invalid operation comes out of a table. -/
theorem route_eq_table_of_error {op : Operator} {lhs rhs : Value ε} {e : OpError}
    (h : (dispatch op lhs rhs).result = .error e) (he : ∀ other a b, e ≠ .invalid other a b)
    : (dispatch op lhs rhs).route = .table := by
  cases hroute : (dispatch op lhs rhs).route with
  | table => rfl
  | fallback =>
      obtain rfl := op_eq_equal_of_fallback hroute
      cases h
  | invalid =>
      obtain ⟨other, a, b, hinvalid⟩ := route_eq_invalid_iff.mp hroute
      exact absurd (Except.error.inj (h.symm.trans hinvalid)) (he other a b)

/-- The line reports a route by ending in its name. -/
def Reports (line : String) (route : Route) : Prop :=
  ∃ text, line = text ++ " -> " ++ route.name

/-- The line opens the block of a step: it does not begin with a blank, as lines on results do. -/
def isOpening (line : String) : Bool :=
  line.toList.head? != some ' '

theorem getLast?_of_reports {line : String} {route : Route} (h : Reports line route)
    : line.toList.getLast? = route.name.toList.getLast? := by
  obtain ⟨text, rfl⟩ := h
  rw [String.toList_append, List.getLast?_append]
  cases route <;> rfl

/-- A dispatch line reports one route only, because the names of the routes end differently. -/
theorem reports_dispatchLine_iff {v : Verbosity} {op : Operator} {lhs rhs : Value ε}
    {route other : Route}
    : Reports (v.dispatchLine op lhs rhs route) other ↔ route = other := by
  have hreports : Reports (v.dispatchLine op lhs rhs route) route := by
    unfold Verbosity.dispatchLine
    split_ifs <;> exact ⟨_, rfl⟩
  constructor
  · intro h
    have hlast := (getLast?_of_reports hreports).symm.trans (getLast?_of_reports h)
    revert hlast
    cases route <;> cases other <;> decide
  · rintro rfl
    exact hreports

theorem isOpening_dispatchLine (v : Verbosity) (op : Operator) (lhs rhs : Value ε)
    (route : Route)
    : isOpening (v.dispatchLine op lhs rhs route) = true := by
  have hname (text : String) : isOpening (op.name ++ text) = true := by
    rw [isOpening, String.toList_append, List.head?_append]
    obtain _ | (_ | _ | _ | _) | (_ | _ | _ | _ | _) := op <;> rfl
  unfold Verbosity.dispatchLine
  split_ifs <;> simp only [String.append_assoc] <;> exact hname _

theorem isOpening_of_mem_resultLines {v : Verbosity} {result : Except OpError (Value ε)}
    {line : String} (h : line ∈ v.resultLines result)
    : isOpening line = false := by
  have hblank (text : String)
      : isOpening ("  ! " ++ text) = false ∧ isOpening ("  = " ++ text) = false := by
    simp [isOpening, String.toList_append]
  cases result with
  | error e =>
      rw [Verbosity.resultLines, List.mem_singleton] at h
      subst h
      exact (hblank _).1
  | ok x =>
      rw [Verbosity.resultLines] at h
      split_ifs at h
      · cases h
      · rw [List.mem_singleton] at h
        subst h
        exact (hblank _).2

namespace Step

/-- The lines that a step adds to a trace: one line on its dispatch, and the rest on its result. -/
structure Traced (v : Verbosity) (step : Step ε) (line : String) (rest : List String)
    : Prop where
  dispatched : ∃ route, line = v.dispatchLine step.op step.lhs step.rhs route
  opens : isOpening line = true
  /-- Only equality falls back. -/
  fallback : Reports line .fallback → step.op = .equal
  /-- The operations that are resolved as invalid are those that end in this error. -/
  invalid : Reports line .invalid ↔ ∃ op a b, step.result = .error (.invalid op a b)
  /-- The other errors come out of a table. -/
  table
    : step.result = .error .divisionByZero ∨ (∃ op, step.result = .error (.overflow op)) →
        Reports line .table
  failure : ∀ e, step.result = .error e → rest = ["  ! " ++ e.message]
  success
    : ∀ x, step.result = .ok x → rest = if v = .terse then [] else ["  = " ++ v.operand x]

theorem traced (v : Verbosity) (step : Step ε)
    : step.Traced v (step.opening v) (v.resultLines step.result) where
  dispatched := ⟨_, rfl⟩
  opens := isOpening_dispatchLine _ _ _ _ _
  fallback h := op_eq_equal_of_fallback (reports_dispatchLine_iff.mp h)
  invalid := reports_dispatchLine_iff.trans route_eq_invalid_iff
  table := by
    rintro (h | ⟨op, h⟩)
    all_goals
      refine reports_dispatchLine_iff.mpr (route_eq_table_of_error h ?_)
      rintro _ _ _ ⟨⟩
  failure e h := by rw [h, Verbosity.resultLines]
  success x h := by rw [h, Verbosity.resultLines]

theorem length_block (v : Verbosity) (step : Step ε)
    : (step.block v).length = 1 + if step.fails then 1 else if v = .terse then 0 else 1 := by
  rw [block, List.length_cons, fails]
  cases step.result with
  | error e => rfl
  | ok x => cases v <;> rfl

/-- Of the lines of a step exactly the first one is an opening. -/
theorem countP_block (v : Verbosity) (step : Step ε)
    : (step.block v).countP isOpening = 1 := by
  have hrest : (v.resultLines step.result).countP isOpening = 0 := by
    rw [List.countP_eq_zero]
    intro line hline
    simp [isOpening_of_mem_resultLines hline]
  rw [block, opening, List.countP_cons_of_pos (isOpening_dispatchLine _ _ _ _ _), hrest]

theorem countP_blocks (v : Verbosity) (steps : List (Step ε))
    : (steps.flatMap (block v)).countP isOpening = steps.length := by
  induction steps with
  | nil => rfl
  | cons step steps ih =>
      rw [List.flatMap_cons, List.countP_append, countP_block, ih, List.length_cons]
      omega

theorem length_blocks (v : Verbosity) (steps : List (Step ε))
    : (steps.flatMap (block v)).length
      = steps.length + steps.countP fails
        + if v = .terse then 0 else steps.countP (!fails ·) := by
  induction steps with
  | nil => simp
  | cons step steps ih =>
      rw [List.flatMap_cons, List.length_append, length_block, ih, List.length_cons]
      cases hfails : step.fails <;> simp [hfails] <;> split_ifs <;> omega

end Step

/-- The text is no literal. -/
def Literal.Refuses (ε : Type) [Extension ε] (text : String) : Prop :=
  ∃ e, (parse text : Except LiteralError (Value ε)) = .error e

namespace Session

open Literal

/-- An evaluation of two literals is a run of one step, or it leaves the session as it is. -/
structure Evaluates (ε : Type) [Extension ε] (s : Session) (lhs : String) (op : Operator)
    (rhs : String) : Prop where
  refused
    : Refuses ε lhs ∨ Refuses ε rhs →
        ∃ e, (s.evaluate lhs op rhs : _ × Except _ (Value ε)) = (s, .error (.literal e))
  /-- The trace stays as it is only if a literal is refused. -/
  silent
    : (s.evaluate lhs op rhs : _ × Except _ (Value ε)).1.lines = s.lines ↔
        Refuses ε lhs ∨ Refuses ε rhs
  applied
    : ∀ x y : Value ε, Literal.parse lhs = .ok x → Literal.parse rhs = .ok y →
        s.evaluate lhs op rhs
          = ((s.run [⟨op, x, y⟩]).1, (Step.mk op x y).result.mapError .operator)

theorem evaluates (s : Session) (lhs : String) (op : Operator) (rhs : String)
    : s.Evaluates ε lhs op rhs := by
  cases hlhs : (Literal.parse lhs : Except LiteralError (Value ε)) with
  | error e =>
      have hevaluate : s.evaluate lhs op rhs = (s, (.error (.literal e) : Except _ (Value ε))) := by
        rw [evaluate, hlhs]
      exact ⟨fun _ => ⟨e, hevaluate⟩, by simp [hevaluate, Refuses, hlhs], by simp [hlhs]⟩
  | ok x =>
    cases hrhs : (Literal.parse rhs : Except LiteralError (Value ε)) with
    | error e =>
        have hevaluate
            : s.evaluate lhs op rhs = (s, (.error (.literal e) : Except _ (Value ε))) := by
          rw [evaluate, hlhs, hrhs]
        exact ⟨fun _ => ⟨e, hevaluate⟩, by simp [hevaluate, Refuses, hrhs], by simp [hrhs]⟩
    | ok y =>
        have hevaluate
            : s.evaluate lhs op rhs
              = ((s.run [⟨op, x, y⟩]).1, (Step.mk op x y).result.mapError .operator) := by
          have happly : s.apply op x y = _ := Step.apply_eq s ⟨op, x, y⟩
          simp only [evaluate, hlhs, hrhs, happly, run_eq, List.flatMap_singleton]
        have haccepted : ¬ (Refuses ε lhs ∨ Refuses ε rhs) := by simp [Refuses, hlhs, hrhs]
        refine ⟨fun h => absurd h haccepted, ?_, ?_⟩
        · rw [hevaluate, run_eq]
          simp [haccepted, Step.block]
        · intro x' y' hx hy
          obtain rfl := Except.ok.inj (hlhs.symm.trans hx)
          obtain rfl := Except.ok.inj (hrhs.symm.trans hy)
          exact hevaluate

end Session

/-- A run is traced block by block, and an evaluation after it continues it. -/
structure Session.Traced (s : Session) (steps : List (Step ε)) : Prop where
  /-- The session has no influence on the results. -/
  results : (s.run steps).2 = steps.map Step.result
  verbosity : (s.run steps).1.verbosity = s.verbosity
  /-- Each step adds its own lines behind the lines before it, and they stay. -/
  extended
    : ∀ before step after, steps = before ++ step :: after →
        ∃ line rest,
          step.Traced s.verbosity line rest
          ∧ (s.run (before ++ [step])).1.lines = (s.run before).1.lines ++ line :: rest
          ∧ (s.run (before ++ [step])).1.lines <+: (s.run steps).1.lines
  /-- There is one line on a dispatch for every step. -/
  openings
    : (s.run steps).1.lines.countP isOpening = s.lines.countP isOpening + steps.length
  total
    : (s.run steps).1.lines.length
      = s.lines.length + steps.length + steps.countP Step.fails
        + if s.verbosity = .terse then 0 else steps.countP (!Step.fails ·)
  evaluations : ∀ lhs op rhs, (s.run steps).1.Evaluates ε lhs op rhs

/-- Every run is traced, because it adds nothing but the blocks of its steps. -/
theorem runs_traced (s : Session) (steps : List (Step ε)) : s.Traced steps where
  results := by rw [Session.run_eq]
  verbosity := by rw [Session.run_eq]
  extended before step after h := by
    refine ⟨_, _, step.traced s.verbosity, ?_, ?_⟩
    · simp [Session.run_eq, Step.block]
    · rw [h, List.append_cons before step after]
      exact s.lines_prefix_run _ _
  openings := by rw [Session.run_eq, List.countP_append, Step.countP_blocks]
  total := by
    rw [Session.run_eq, List.length_append, Step.length_blocks]
    omega
  evaluations := (s.run steps).1.evaluates

/-- Truth values, which have no order. -/
def Step.unordered : Step Labelled :=
  ⟨.order .less, .ofBool false, .ofBool true⟩

/-- The remainder of an integer by a zero of a narrower kind. -/
def Step.remainderByZero : Step Labelled :=
  ⟨.compute .modulo, .scalar ⟨.int (.signed .w64), ⟨7, by decide, by decide⟩⟩,
    .scalar ⟨.int (.unsigned .w8), ⟨0, by decide, by decide⟩⟩⟩

/-- A remainder by zero comes out of a table, although the step before it was invalid. -/
theorem runs_traced_remainder
    : Step.remainderByZero.result = .error .divisionByZero
      ∧ ∃ line,
          ((Session.start .terse).run [.unordered, .remainderByZero]).1.lines
            = ((Session.start .terse).run [.unordered]).1.lines
              ++ [line, "  ! integer division by zero"]
          ∧ Reports line .table := by
  have hzero : Step.remainderByZero.result = .error .divisionByZero :=
    apply_modulo_by_zero ⟨rfl, _, _, _, _, rfl, rfl, rfl⟩
  obtain ⟨line, rest, htraced, hlines, -⟩ :=
    (runs_traced (.start .terse) [.unordered, .remainderByZero]).extended [.unordered] _ [] rfl
  rw [htraced.failure _ hzero] at hlines
  exact ⟨hzero, line, hlines, htraced.table (.inl hzero)⟩

end DynamicOps
