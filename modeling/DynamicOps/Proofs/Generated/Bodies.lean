import DynamicOps.Proofs.Equality.Arrays
import DynamicOps.Proofs.Generated.Semantics
import DynamicOps.Proofs.Operation.Routes

/-!
Generated expressions and the bodies of case tables. Where an operator accepts a body between two
patterns, the expression of the body evaluates to what the body relates, computes, or concludes,
under any scope that binds the parts of operands that have the patterns.
-/

namespace DynamicOps.Generated

variable {ε : Type}

/-- The part of a value that its pattern binds, which is that of the target for a reference. -/
def part? : Value ε → Option (Object ε)
  | .scalar s | .ref (.present s) => some (.payload s)
  | .list xs => some (.items xs)
  | .array a => some (.elements a)
  | _ => none

theorem exists_part?_of_accepts {p : Pattern} {v : Value ε} (h : p.accepts v = true)
    : ∃ part, part? v = some part := by
  rcases v with _ | _ | _ | _ | _ | (_ | _) | _
  case scalar | array | list | ref.present => exact ⟨_, rfl⟩
  all_goals rcases p with _ | _ | (_ | _) <;> cases h

namespace Scope

/-- The names stand for the operands and for the part of the left one. -/
structure Opens (scope : Scope ε) (v w : Value ε) : Prop where
  lhs : scope .lhs = some (.value v)
  rhs : scope .rhs = some (.value w)
  x : scope .x = part? v

/-- Besides, a name stands for the part of the right operand, unless the body has no use for it. -/
structure Fits (scope : Scope ε) (body : Body) (v w : Value ε) : Prop
    extends scope.Opens v w where
  y : body ≠ .swapped → scope .y = part? w

/-- What is bound further in leaves the operands and the part of the left one as they are. -/
theorem Opens.bind {scope : Scope ε} {v w : Value ε} {n? : Option Name} (h : scope.Opens v w)
    (hn : n? = none ∨ n? = some .y ∨ n? = some .r) (part : Object ε)
    : (scope.bind n? part).Opens v w := by
  rcases hn with rfl | rfl | rfl <;> exact ⟨h.lhs, h.rhs, h.x⟩

end Scope

variable [Extension ε]

/-- What a body gives for the operands of an operator, as an object of generated code. -/
def outcome? (op : Operator) (body : Body) (lhs rhs : Value ε) : Option (Object ε) :=
  match op with
  | .equal => (Verdict.ofBody? body lhs rhs).map fun verdict => .ofTruth verdict.holds
  | .order o => do (body.relate? o.relation (← lhs.scalar?) (← rhs.scalar?)).map .ofTruth
  | .compute o => do (body.compute? o (← lhs.scalar?) (← rhs.scalar?)).map .ofResult

/-- There is an outcome, and the expression has it. -/
def Computes (scope : Scope ε) (e : Expression) (outcome : Option (Object ε)) : Prop :=
  ∃ o, outcome = some o ∧ e.eval? scope = some (.present o)

variable {scope : Scope ε} {s t : Scalar} {domain : Kind}

/-- The conversion into words is the one of promotion, by cases on the kind of the payload. -/
theorem eval?_converted_word {n : Name} {w : Word64} (hn : scope n = some (.payload s))
    (hdomain : domain = .i64 ∨ domain = .duration) (hw : s.toWord? = some w)
    : (converted s.kind domain n).eval? scope = some (.payload (.ofWord w)) := by
  obtain ⟨k, x⟩ := s
  cases k with
  | text | bool | instant => cases hw
  | duration =>
      cases hw
      have hne : domain ≠ .f64 := by
        rintro rfl
        simp at hdomain
      simp [converted, hne, Expression.eval?, hn, UnaryForm.object?, Duration.toWord]
  | int _ | float _ =>
      cases hw
      rcases hdomain with rfl | rfl <;>
        simp [converted, Expression.eval?, hn, UnaryForm.object?, cast?]

/-- The conversion into double precision is the one of promotion, by cases on the kind of the
payload.
-/
theorem eval?_converted_binary {n : Name} {x : Binary64} (hn : scope n = some (.payload s))
    (hx : s.toBinary? = some x)
    : (converted s.kind .f64 n).eval? scope = some (.payload (.ofBinary x)) := by
  obtain ⟨k, y⟩ := s
  cases k with
  | text | bool | instant => cases hx
  | duration =>
      cases hx
      simp [converted, Expression.eval?, hn, UnaryForm.object?, Duration.toWord, cast?,
        Scalar.ofWord]
  | int _ | float _ =>
      cases hx
      simp [converted, Expression.eval?, hn, UnaryForm.object?, cast?]

/-- A comparison between two payloads of one kind relates them. -/
theorem eval?_comparison {op : Operator} {rel : PayloadRelation} {k : Kind} {x y : k.Payload}
    {e f : Expression} (hop : ∀ s t : Scalar, operate? op s t = (s.related? rel t).map .ofBool)
    (he : e.eval? scope = some (.payload ⟨k, x⟩)) (hf : f.eval? scope = some (.payload ⟨k, y⟩))
    : (Expression.unary .present (.binary (.operator op) e f)).eval? scope
      = some (.present (.ofTruth (rel k x y))) := by
  simp [Expression.eval?, he, hf, UnaryForm.object?, BinaryForm.object?, hop, Scalar.related?,
    Object.ofTruth]

/-- Promoted scalars are related by their expression in every domain of the operator. -/
theorem computes_relation {op : Operator} {rel : PayloadRelation}
    (hop : ∀ s t : Scalar, operate? op s t = (s.related? rel t).map .ofBool)
    (hx : scope .x = some (.payload s)) (hy : scope .y = some (.payload t))
    (hs : s.kind.isArithmetic = true) (ht : t.kind.isArithmetic = true)
    (hdomain : op.Domain domain)
    : Computes scope
        (.unary .present
          (.binary (.operator op) (converted s.kind domain .x) (converted t.kind domain .y)))
        ((s.relatedIn? rel domain t).map .ofTruth) := by
  obtain ⟨v, hv⟩ := Scalar.exists_toWord? hs
  obtain ⟨w, hw⟩ := Scalar.exists_toWord? ht
  obtain ⟨x, hx'⟩ := Scalar.exists_toBinary? hs
  obtain ⟨y, hy'⟩ := Scalar.exists_toBinary? ht
  cases hdomain with
  | words h =>
      refine ⟨.ofTruth (rel .i64 v w), by simp [Scalar.relatedIn?, hv, hw], ?_⟩
      exact eval?_comparison hop (eval?_converted_word hx (.inl rfl) hv)
        (eval?_converted_word hy (.inl rfl) hw)
  | binaries h =>
      refine ⟨.ofTruth (rel .f64 x y), by simp [Scalar.relatedIn?, hx', hy'], ?_⟩
      exact eval?_comparison hop (eval?_converted_binary hx hx') (eval?_converted_binary hy hy')
  | durations hdivide hmodulo =>
      refine ⟨.ofTruth (rel .i64 v w), by simp [Scalar.relatedIn?, hv, hw], ?_⟩
      exact eval?_comparison hop (eval?_converted_word hx (.inr rfl) hv)
        (eval?_converted_word hy (.inr rfl) hw)

/-- Promoted scalars are combined by their expression in every domain of the operator. -/
theorem computes_arithmetic {o : Arithmetic} (hx : scope .x = some (.payload s))
    (hy : scope .y = some (.payload t)) (hs : s.kind.isArithmetic = true)
    (ht : t.kind.isArithmetic = true) (hdomain : (Operator.compute o).Domain domain)
    : ∃ e, arithmetic? o domain (converted s.kind domain .x) (converted t.kind domain .y) = some e
        ∧ Computes scope e ((o.promoted? domain s t).map .ofResult) := by
  obtain ⟨v, hv⟩ := Scalar.exists_toWord? hs
  obtain ⟨w, hw⟩ := Scalar.exists_toWord? ht
  cases hdomain with
  | words h =>
      have hv' := eval?_converted_word hx (.inl rfl) hv
      have hw' := eval?_converted_word hy (.inl rfl) hw
      cases o with
      | divide => exact absurd rfl h
      | add | subtract | multiply =>
          refine ⟨_, rfl, _, by rw [Arithmetic.promoted?, hv, hw]; rfl, ?_⟩
          simp only [Expression.eval?, hv', hw', Option.bind_some]
          rfl
      | modulo =>
          refine ⟨_, rfl, remainder v w, ?_, ?_⟩
          · by_cases hzero : w.val = 0 <;>
              simp [Arithmetic.promoted?, Arithmetic.onWords?, hv, hw, remainder, hzero,
                Word.remainder?, Except.map, Object.ofResult]
          · simp only [Expression.eval?, hv', hw', Option.bind_some]
            rfl
  | binaries h =>
      obtain ⟨x, hx'⟩ := Scalar.exists_toBinary? hs
      obtain ⟨y, hy'⟩ := Scalar.exists_toBinary? ht
      cases o with
      | modulo => exact absurd rfl h
      | add | subtract | multiply | divide =>
          refine ⟨_, rfl, _, by rw [Arithmetic.promoted?, hx', hy']; rfl, ?_⟩
          simp only [Expression.eval?, eval?_converted_binary hx hx',
            eval?_converted_binary hy hy', Option.bind_some]
          rfl
  | durations hdivide hmodulo =>
      cases o with
      | divide => exact absurd rfl hdivide
      | modulo => exact absurd rfl hmodulo
      | add | subtract | multiply =>
          refine ⟨_, rfl, _, by rw [Arithmetic.promoted?, hv, hw]; rfl, ?_⟩
          simp only [Expression.eval?, eval?_converted_word hx (.inr rfl) hv,
            eval?_converted_word hy (.inr rfl) hw, Option.bind_some]
          rfl

/-- A checked call gives its result, or the overflow of its operator. -/
theorem eval?_rangeChecked {o : Arithmetic} {k : Kind} {call : Expression}
    {z? : Option k.Payload} (hcall : call.eval? scope = some (.checked k z?))
    : (rangeChecked (.compute o) k call).eval? scope
      = some (.present (.ofResult (o.orOverflow k z?))) := by
  cases z? <;>
    simp [rangeChecked, Expression.eval?, hcall, UnaryForm.object?, Object.checked,
      Object.ofOption, Object.ofResult, Arithmetic.orOverflow]

/-- The items of a list are an array's elements when there are as many of them and they are equal
one by one.
-/
theorem holds_ofItems_elements (xs : List (Value ε)) (a : TypedArray)
    : (Verdict.ofItems xs (a.toScalars.map .scalar)).holds
      = (decide (xs.length = a.items.length)
          && (xs.zip a.toScalars).all fun p => equal p.1 (.scalar p.2)) := by
  have hlength : a.toScalars.length = a.items.length := List.length_map _
  rw [Bool.eq_iff_iff, Verdict.holds_ofItems, List.forall₂_map_right_iff, List.forall₂_iff_zip,
    hlength]
  simp

/-- The expression of an accepted body gives what the body does, by cases on what its operator
supports.
-/
theorem computes_expression? {op : Operator} {p q : Pattern} {body : Body} {lhs rhs : Value ε}
    (h : op.Accepts p q body) (hp : p.accepts lhs = true) (hq : q.accepts rhs = true)
    (hscope : scope.Fits body lhs rhs)
    : ∃ e, expression? op p q body = some e ∧ Computes scope e (outcome? op body lhs rhs) := by
  obtain ⟨hsupports, hagrees⟩ := h
  have hx := hscope.x
  have hy := hscope.y
  cases hsupports with
  | promoted found _ =>
      obtain ⟨x, rfl⟩ := Pattern.eq_scalar_of_accepts hp
      obtain ⟨y, rfl⟩ := Pattern.eq_scalar_of_accepts hq
      obtain ⟨ha, hb, hdomain⟩ := domain_of_promote hagrees
      specialize hy (by simp)
      cases op with
      | equal =>
          refine ⟨_, rfl, ?_⟩
          rw [outcome?, Verdict.ofBody?_scalar_scalar, Option.map_map]
          exact computes_relation (fun _ _ => rfl) hx hy ha hb hdomain
      | order o => exact ⟨_, rfl, computes_relation (fun _ _ => rfl) hx hy ha hb hdomain⟩
      | compute o => exact computes_arithmetic hx hy ha hb hdomain
  | equal k =>
      obtain ⟨x, rfl⟩ := Pattern.eq_scalar_of_accepts hp
      obtain ⟨y, rfl⟩ := Pattern.eq_scalar_of_accepts hq
      refine ⟨_, rfl, .ofTruth (k.equal x y), ?_, ?_⟩
      · simp [outcome?, Verdict.ofBody?, Body.relate?, Scalar.related?]
      · exact eval?_comparison (fun _ _ => rfl) hx (hy (by simp))
  | reference k =>
      obtain ⟨x, rfl⟩ := Pattern.eq_scalar_of_accepts hp
      obtain ⟨y, rfl⟩ := Pattern.eq_ref_of_accepts hq
      refine ⟨_, rfl, .ofTruth (k.equal x y), ?_, ?_⟩
      · simp [outcome?, Verdict.ofBody?, Scalar.related?]
      · exact eval?_comparison (fun _ _ => rfl) hx (hy (by simp))
  | @order o k _ =>
      obtain ⟨x, rfl⟩ := Pattern.eq_scalar_of_accepts hp
      obtain ⟨y, rfl⟩ := Pattern.eq_scalar_of_accepts hq
      refine ⟨_, rfl, .ofTruth (o.relation k x y), ?_, ?_⟩
      · simp [outcome?, Value.scalar?, Body.relate?, Scalar.related?]
      · exact eval?_comparison (fun _ _ => rfl) hx (hy (by simp))
  | concat | elapsed =>
      obtain ⟨x, rfl⟩ := Pattern.eq_scalar_of_accepts hp
      obtain ⟨y, rfl⟩ := Pattern.eq_scalar_of_accepts hq
      refine ⟨_, rfl, _, rfl, ?_⟩
      simp only [Expression.eval?, hx, hy (by simp), part?, Option.bind_some]
      rfl
  | shift ho | checked ho =>
      obtain ⟨x, rfl⟩ := Pattern.eq_scalar_of_accepts hp
      obtain ⟨y, rfl⟩ := Pattern.eq_scalar_of_accepts hq
      rcases ho with rfl | rfl <;>
      · refine ⟨_, rfl, _, rfl, eval?_rangeChecked ?_⟩
        simp only [Expression.eval?, hx, hy (by simp), part?, Option.bind_some]
        rfl
  | shiftBy =>
      obtain ⟨x, rfl⟩ := Pattern.eq_scalar_of_accepts hp
      obtain ⟨y, rfl⟩ := Pattern.eq_scalar_of_accepts hq
      refine ⟨_, rfl, _, rfl, eval?_rangeChecked ?_⟩
      simp only [Expression.eval?, hx, hy (by simp), part?, Option.bind_some]
      rfl
  | elementwise k =>
      obtain ⟨xs, rfl⟩ := Pattern.eq_list_of_accepts hp
      obtain ⟨ys, rfl⟩ := Pattern.eq_array_of_accepts hq
      refine ⟨_, rfl, _, rfl, ?_⟩
      simp [holds_ofItems_elements, Expression.eval?, hx, hy (by simp), part?, BinaryForm.object?,
        UnaryForm.object?, Object.ofTruth, Scalar.ofBool]
  | swapped k =>
      -- The expression asks equality again, with the list on the left.
      obtain ⟨xs, rfl⟩ := Pattern.eq_array_of_accepts hp
      obtain ⟨ys, rfl⟩ := Pattern.eq_list_of_accepts hq
      refine ⟨_, rfl, .ofTruth (equal (.list ys) (.array ⟨k, xs⟩)), ?_, ?_⟩
      · rw [equal_eq_holds]
        rfl
      · simp [Expression.eval?, hscope.lhs, hscope.rhs, BinaryForm.object?, UnaryForm.object?]
  | arrays k =>
      obtain ⟨xs, rfl⟩ := Pattern.eq_array_of_accepts hp
      obtain ⟨ys, rfl⟩ := Pattern.eq_array_of_accepts hq
      refine ⟨_, rfl, .ofTruth (k.equalItems xs ys), ?_, ?_⟩
      · simp [outcome?, Verdict.ofBody?, TypedArray.equal?]
      · simp [Expression.eval?, hx, hy (by simp), part?, UnaryForm.object?, BinaryForm.object?,
          TypedArray.equal?]

end DynamicOps.Generated
