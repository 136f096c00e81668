import DynamicOps.Proofs.Generated.Bodies
import DynamicOps.Proofs.Generated.Texts

/-!
Generated code and the operators. The matches of a consistent table's code run into the case that
the table selects, so the text of every operator's table is code that gives the operator's answer
on operands that the table covers, and nothing on all others.
-/

namespace DynamicOps.Generated

variable {ε : Type}

/-- The shape of a pattern fits the values that the pattern accepts, and binds their part. -/
theorem bound?_of_shape? {p : Pattern} {shape : Shape} (h : shape? p = some shape) (v : Value ε)
    : shape.bound? (.value v) = if p.accepts v then part? v else none := by
  rcases p with k | k | _ | k <;> cases h
  all_goals cases v <;> simp [Shape.bound?, Pattern.accepts, part?]

variable [Extension ε]

/-- The expression that a body has evaluates to what the body gives. -/
theorem eval?_of_expression? {scope : Scope ε} {op : Operator} {p q : Pattern} {body : Body}
    {e : Expression} {lhs rhs : Value ε} (he : expression? op p q body = some e)
    (haccepts : op.Accepts p q body) (hp : p.accepts lhs = true) (hq : q.accepts rhs = true)
    (hscope : scope.Fits body lhs rhs)
    : e.eval? scope = some (.ofOption (outcome? op body lhs rhs)) := by
  obtain ⟨e', he', o, ho, heval⟩ := computes_expression? haccepts hp hq hscope
  obtain rfl : e = e' := Option.some.inj (he.symm.trans he')
  rw [ho]
  exact heval

/-- A match on a target evaluates its expression where the target has the kind, and gives nothing
on other targets.
-/
theorem run?_target (scope : Scope ε) (k : Kind) (e : Expression) (r : Reference)
    : (Code.select (.unary .target (.name .r)) [(.present k, some .y, .answer e)]).run?
          (scope.bind (some .r) (.reference r))
      = match r with
        | .nil _ => some .absent
        | .present s =>
          if s.kind = k then
            e.eval? ((scope.bind (some .r) (.reference r)).bind (some .y) (.payload s))
          else some .absent := by
  cases r with
  | nil _ => rfl
  | present s =>
      change runArms? _ (.present (.value (.scalar s))) _ = _
      by_cases hk : s.kind = k <;> simp [runArms?, Shape.bound?, Code.run?, hk]

/-- The arm of a case gives what its body does where the case opens and accepts the right operand,
and nothing where it only opens; otherwise the arms after it are tried.
-/
theorem runArms?_cons {scope : Scope ε} {op : Operator} {p : Pattern} {c : Case} {arm : MatchArm}
    {arms : List MatchArm} {lhs rhs : Value ε} (harm : caseArm? op p c = some arm)
    (haccepts : op.Accepts p c.rhs c.body) (hp : p.accepts lhs = true)
    (hscope : scope.Opens lhs rhs)
    : runArms? scope (.value rhs) (arm :: arms)
      = if c.rhs.opens rhs then
          some (.ofOption (if c.rhs.accepts rhs then outcome? op c.body lhs rhs else none))
        else runArms? scope (.value rhs) arms := by
  obtain ⟨q, body⟩ := c
  obtain ⟨e, he, harm⟩ := Option.bind_eq_some_iff.mp harm
  cases q with
  | refTo k =>
      cases harm
      cases rhs with
      | nil | scalar _ | array _ | list _ | record _ | extension _ => rfl
      | ref r =>
          simp only [runArms?, Shape.bound?, run?_target, Pattern.opens, Value.isRef]
          cases r with
          | nil _ => rfl
          | present s =>
              by_cases hk : s.kind = k
              · have hq : (Pattern.refTo k).accepts (.ref (.present s) : Value ε) = true := by
                  simpa [Pattern.accepts] using hk
                simp only [hk, hq, if_true]
                refine eval?_of_expression? he haccepts hp hq ⟨?_, fun _ => rfl⟩
                exact (hscope.bind (by simp) _).bind (by simp) _
              · simp [hk, Pattern.accepts, Object.ofOption]
  | scalar _ | array _ =>
      obtain ⟨shape, hshape, harm⟩ := Option.bind_eq_some_iff.mp harm
      cases harm
      simp only [runArms?, bound?_of_shape? hshape, Pattern.opens]
      cases hq : Pattern.accepts _ rhs with
      | false => rfl
      | true =>
          obtain ⟨part, hpart⟩ := exists_part?_of_accepts hq
          have hinner : (scope.bind (if body = .swapped then none else some .y) part).Fits body
              lhs rhs :=
            ⟨hscope.bind (by split <;> simp) part,
              fun hbody => by simp [Scope.bind, hbody, hpart]⟩
          simpa [hpart, Code.run?] using eval?_of_expression? he haccepts hp hq hinner

/-- The match of an arm gives what the body does that it runs into, by induction over the cases. -/
theorem runArms?_of_cases {scope : Scope ε} {op : Operator} {p : Pattern} {cases : List Case}
    {arms : List MatchArm} {lhs rhs : Value ε}
    (harms : List.Forall₂ (fun c arm => caseArm? op p c = some arm) cases arms)
    (haccepts : ∀ c ∈ cases, op.Accepts p c.rhs c.body) (hp : p.accepts lhs = true)
    (hscope : scope.Opens lhs rhs)
    : runArms? scope (.value rhs) arms
      = some (.ofOption ((matchedCase? cases rhs).bind (outcome? op · lhs rhs))) := by
  induction harms with
  | nil => rfl
  | @cons c arm cases arms harm _ ih =>
      specialize ih fun d hd => haccepts d (List.mem_cons_of_mem _ hd)
      rw [runArms?_cons harm (haccepts c (by simp)) hp hscope, ih]
      cases hopens : c.rhs.opens rhs with
      | false => simp [matchedCase?, hopens]
      | true => cases haccepted : c.rhs.accepts rhs <;> simp [matchedCase?, hopens, haccepted]

/-- The match of a table gives what the body does that it runs into, by induction over the arms. -/
theorem runArms?_of_arms {op : Operator} {tableArms : List Arm} {arms : List MatchArm}
    (harms : List.Forall₂ (fun a arm => arm? op a = some arm) tableArms arms)
    (haccepts : ∀ a ∈ tableArms, ∀ c ∈ a.cases, op.Accepts a.lhs c.rhs c.body)
    (lhs rhs : Value ε)
    : runArms? (.operands lhs rhs) (.value lhs) arms
      = some (.ofOption
          ((Table.matched? ⟨op, tableArms⟩ lhs rhs).bind (outcome? op · lhs rhs))) := by
  induction harms with
  | nil => rfl
  | @cons a arm tableArms arms harm _ ih =>
      obtain ⟨shape, hshape, harm⟩ := Option.bind_eq_some_iff.mp harm
      obtain ⟨inner, hinner, harm⟩ := Option.bind_eq_some_iff.mp harm
      cases harm
      specialize ih fun b hb => haccepts b (List.mem_cons_of_mem _ hb)
      simp only [runArms?, bound?_of_shape? hshape]
      cases hlhs : a.lhs.accepts lhs with
      | false => simpa [Table.matched?, hlhs] using ih
      | true =>
          obtain ⟨part, hpart⟩ := exists_part?_of_accepts hlhs
          have hscope : (Scope.bind (.operands lhs rhs) (some .x) part).Opens lhs rhs :=
            ⟨rfl, rfl, by simp [Scope.bind, hpart]⟩
          have hcases := runArms?_of_cases (mapM_eq_some_iff.mp hinner) (haccepts a (by simp))
            hlhs hscope
          simpa [Table.matched?, hlhs, hpart, Code.run?, Expression.eval?, hscope.rhs] using hcases

/-- The code of a consistent table gives what the body does that the table selects. -/
theorem run?_of_code? {t : Table} (h : t.Consistent) {code : Code} (hcode : t.code? = some code)
    (lhs rhs : Value ε)
    : code.run? (.operands lhs rhs)
      = some (.ofOption ((t.select? lhs rhs).bind (outcome? t.op · lhs rhs))) := by
  obtain ⟨arms, harms, hcode⟩ := Option.bind_eq_some_iff.mp hcode
  cases hcode
  rw [← Table.matched?_eq_select? h]
  exact runArms?_of_arms (mapM_eq_some_iff.mp harms)
    (fun a ha c hc => checkCase_eq_ok_iff.mp (h.accepted a ha c hc)) lhs rhs

/-- What an operator answers by its table, as an object of generated code. -/
def answer? (op : Operator) (lhs rhs : Value ε) : Option (Object ε) :=
  match op with
  | .equal => (Verdict.ofTable? lhs rhs).map fun verdict => .ofTruth verdict.holds
  | .order o => (ordered? o lhs rhs).map .ofTruth
  | .compute o => (computed? o lhs rhs).map .ofResult

theorem select?_bind_outcome? (op : Operator) (lhs rhs : Value ε)
    : (op.table.select? lhs rhs).bind (outcome? op · lhs rhs) = answer? op lhs rhs := by
  cases op with
  | equal =>
      rw [answer?, Verdict.ofTable?, Option.map_bind]
      rfl
  | order o =>
      simp only [answer?, ordered?, selected?, outcome?, Option.bind_eq_bind, Option.bind_assoc,
        Option.bind_some, Option.map_bind, Function.comp_def]
  | compute o =>
      simp only [answer?, computed?, selected?, outcome?, Option.bind_eq_bind, Option.bind_assoc,
        Option.bind_some, Option.map_bind, Function.comp_def]

/-- The text of an operator's table is code that answers as the operator does by its table: with
the verdict of equality, the relation of an ordering, or the result or error of arithmetic, and
with nothing where the table has no case.
-/
theorem rendered_code_answers (op : Operator)
    : ∃ code : Code,
        (∀ level, (synthesize op).lines? level = some (code.lines level "" ""))
        ∧ ∀ {ε : Type} [Extension ε] (lhs rhs : Value ε),
            code.run? (.operands lhs rhs) = some (.ofOption (answer? op lhs rhs)) := by
  have hrenders := isSome_render?_synthesize op 0
  rw [Table.render?, Table.lines?_eq, Option.isSome_map, Option.isSome_map] at hrenders
  obtain ⟨code, hcode⟩ := Option.isSome_iff_exists.mp hrenders
  refine ⟨code, fun level => by rw [Table.lines?_eq, hcode, Option.map_some], ?_⟩
  intro ε _ lhs rhs
  have hop : (synthesize op).op = op := Table.op_ofCells op _
  rw [run?_of_code? (verified_synthesize op).toConsistent hcode, hop, ← Operator.table_eq,
    select?_bind_outcome?]

end DynamicOps.Generated
