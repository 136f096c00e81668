import DynamicOps.Proofs.Equality.Verdict
import DynamicOps.Proofs.Operation.Tracers
import DynamicOps.Proofs.Table.Matching
import DynamicOps.Proofs.Verification.Synthesized
import DynamicOps.Value.Labelled

/-!
Routes of applications. Whatever case the synthesized table of an operator has for two operands,
its body computes on them, so that an application goes through the table exactly when the table
covers the operands.
-/

namespace DynamicOps

variable {ε : Type}

theorem Pattern.eq_scalar_of_accepts {k : Kind} {v : Value ε}
    (h : (Pattern.scalar k).accepts v = true)
    : ∃ x : k.Payload, v = .scalar ⟨k, x⟩ := by
  cases v with
  | scalar s =>
      obtain ⟨l, x⟩ := s
      obtain rfl : l = k := by simpa [accepts] using h
      exact ⟨x, rfl⟩
  | nil | array _ | list _ | record _ | ref _ | extension _ => cases h

theorem Pattern.eq_ref_of_accepts {k : Kind} {v : Value ε} (h : (Pattern.refTo k).accepts v = true)
    : ∃ x : k.Payload, v = .ref (.present ⟨k, x⟩) := by
  rcases v with _ | _ | _ | _ | _ | (_ | ⟨l, x⟩) | _
  case ref.present =>
    obtain rfl : l = k := by simpa [accepts] using h
    exact ⟨x, rfl⟩
  all_goals cases h

theorem Pattern.eq_list_of_accepts {v : Value ε} (h : (Pattern.array .any).accepts v = true)
    : ∃ xs, v = .list xs := by
  cases v with
  | list xs => exact ⟨xs, rfl⟩
  | nil | scalar _ | array _ | record _ | ref _ | extension _ => cases h

theorem Pattern.eq_array_of_accepts {k : Kind} {v : Value ε}
    (h : (Pattern.array (.of k)).accepts v = true)
    : ∃ xs : List k.Payload, v = .array ⟨k, xs⟩ := by
  cases v with
  | array a =>
      obtain ⟨l, xs⟩ := a
      obtain rfl : l = k := by simpa [accepts] using h
      exact ⟨xs, rfl⟩
  | nil | scalar _ | list _ | record _ | ref _ | extension _ => cases h

namespace Scalar

theorem exists_toWord? {s : Scalar} (h : s.kind.isArithmetic = true)
    : ∃ w, s.toWord? = some w := by
  obtain ⟨_ | _ | _ | _ | _ | _, x⟩ := s <;> first | exact ⟨_, rfl⟩ | cases h

theorem exists_toBinary? {s : Scalar} (h : s.kind.isArithmetic = true)
    : ∃ x, s.toBinary? = some x := by
  obtain ⟨_ | _ | _ | _ | _ | _, x⟩ := s <;> first | exact ⟨_, rfl⟩ | cases h

/-- Promoted scalars are related in every domain that an operator has for them. -/
theorem isSome_relatedIn? {op : Operator} {domain : Kind} {s t : Scalar}
    (rel : PayloadRelation) (hs : s.kind.isArithmetic = true) (ht : t.kind.isArithmetic = true)
    (hdomain : op.Domain domain)
    : (s.relatedIn? rel domain t).isSome = true := by
  obtain ⟨v, hv⟩ := exists_toWord? hs
  obtain ⟨w, hw⟩ := exists_toWord? ht
  obtain ⟨x, hx⟩ := exists_toBinary? hs
  obtain ⟨y, hy⟩ := exists_toBinary? ht
  cases hdomain <;> simp [relatedIn?, hv, hw, hx, hy]

end Scalar

namespace Arithmetic

theorem exists_onWords? {o : Arithmetic} (h : o ≠ .divide) (x y : Word64)
    : ∃ r, o.onWords? x y = some r := by
  cases o with
  | divide => exact absurd rfl h
  | add | subtract | multiply => exact ⟨_, rfl⟩
  | modulo =>
      rw [onWords?]
      split <;> exact ⟨_, rfl⟩

theorem exists_onBinaries? {o : Arithmetic} (h : o ≠ .modulo) (x y : Binary64)
    : ∃ r, o.onBinaries? x y = some r := by
  cases o with
  | modulo => exact absurd rfl h
  | add | subtract | multiply | divide => exact ⟨_, rfl⟩

/-- Promoted scalars are combined in every domain that their operator has. -/
theorem isSome_promoted? {o : Arithmetic} {domain : Kind} {s t : Scalar}
    (hs : s.kind.isArithmetic = true) (ht : t.kind.isArithmetic = true)
    (hdomain : (Operator.compute o).Domain domain)
    : (o.promoted? domain s t).isSome = true := by
  obtain ⟨v, hv⟩ := Scalar.exists_toWord? hs
  obtain ⟨w, hw⟩ := Scalar.exists_toWord? ht
  obtain ⟨x, hx⟩ := Scalar.exists_toBinary? hs
  obtain ⟨y, hy⟩ := Scalar.exists_toBinary? ht
  cases hdomain with
  | words h =>
      have ho : o ≠ .divide := fun ho => h (congrArg _ ho)
      obtain ⟨r, hr⟩ := exists_onWords? ho v w
      simp [promoted?, hv, hw, hr]
  | binaries h =>
      have ho : o ≠ .modulo := fun ho => h (congrArg _ ho)
      obtain ⟨r, hr⟩ := exists_onBinaries? ho x y
      simp [promoted?, hx, hy, hr]
  | durations hdivide hmodulo =>
      have ho : o ≠ .divide := fun ho => hdivide (congrArg _ ho)
      have ho' : o ≠ .modulo := fun ho => hmodulo (congrArg _ ho)
      obtain ⟨r, hr⟩ := exists_onWords? ho v w
      simp [promoted?, hv, hw, hr, ho']

end Arithmetic

/-- A body that an ordering accepts relates the operands it is for. -/
theorem isSome_relate?_of_accepts {relation : Ordered} {p q : Pattern} {body : Body}
    {lhs rhs : Value ε} (h : (Operator.order relation).Accepts p q body)
    (hp : p.accepts lhs = true) (hq : q.accepts rhs = true)
    : ∃ s t, lhs = .scalar s ∧ rhs = .scalar t
        ∧ (body.relate? relation.relation s t).isSome = true := by
  obtain ⟨hsupports, hagrees⟩ := h
  cases hsupports with
  | promoted found _ =>
      obtain ⟨x, rfl⟩ := Pattern.eq_scalar_of_accepts hp
      obtain ⟨y, rfl⟩ := Pattern.eq_scalar_of_accepts hq
      obtain ⟨ha, hb, hdomain⟩ := domain_of_promote hagrees
      exact ⟨_, _, rfl, rfl, Scalar.isSome_relatedIn? _ ha hb hdomain⟩
  | order _ _ =>
      obtain ⟨x, rfl⟩ := Pattern.eq_scalar_of_accepts hp
      obtain ⟨y, rfl⟩ := Pattern.eq_scalar_of_accepts hq
      exact ⟨_, _, rfl, rfl, by simp [Body.relate?, Scalar.related?]⟩

/-- A body that an arithmetic operator accepts computes with the operands it is for. -/
theorem isSome_compute?_of_accepts {o : Arithmetic} {p q : Pattern} {body : Body}
    {lhs rhs : Value ε} (h : (Operator.compute o).Accepts p q body)
    (hp : p.accepts lhs = true) (hq : q.accepts rhs = true)
    : ∃ s t, lhs = .scalar s ∧ rhs = .scalar t ∧ (body.compute? o s t).isSome = true := by
  obtain ⟨hsupports, hagrees⟩ := h
  cases hsupports
  all_goals
    obtain ⟨x, rfl⟩ := Pattern.eq_scalar_of_accepts hp
    obtain ⟨y, rfl⟩ := Pattern.eq_scalar_of_accepts hq
    refine ⟨_, _, rfl, rfl, ?_⟩
  case promoted found _ =>
    obtain ⟨ha, hb, hdomain⟩ := domain_of_promote hagrees
    exact Arithmetic.isSome_promoted? ha hb hdomain
  -- Text and time are computed with by patterns on the kinds, which the operands have.
  all_goals rfl

/-- A body that equality accepts has a verdict on the operands it is for. -/
theorem isSome_ofBody?_of_accepts {p q : Pattern} {body : Body} {lhs rhs : Value ε}
    (h : Operator.equal.Accepts p q body) (hp : p.accepts lhs = true)
    (hq : q.accepts rhs = true)
    : (Verdict.ofBody? body lhs rhs).isSome = true := by
  obtain ⟨hsupports, hagrees⟩ := h
  cases hsupports with
  | promoted found _ =>
      obtain ⟨x, rfl⟩ := Pattern.eq_scalar_of_accepts hp
      obtain ⟨y, rfl⟩ := Pattern.eq_scalar_of_accepts hq
      obtain ⟨ha, hb, hdomain⟩ := domain_of_promote hagrees
      rw [Verdict.ofBody?_scalar_scalar, Option.isSome_map]
      exact Scalar.isSome_relatedIn? _ ha hb hdomain
  | equal k =>
      obtain ⟨x, rfl⟩ := Pattern.eq_scalar_of_accepts hp
      obtain ⟨y, rfl⟩ := Pattern.eq_scalar_of_accepts hq
      simp [Verdict.ofBody?, Body.relate?, Scalar.related?]
  | reference k =>
      obtain ⟨x, rfl⟩ := Pattern.eq_scalar_of_accepts hp
      obtain ⟨y, rfl⟩ := Pattern.eq_ref_of_accepts hq
      simp [Verdict.ofBody?, Scalar.related?]
  | elementwise k =>
      obtain ⟨xs, rfl⟩ := Pattern.eq_list_of_accepts hp
      obtain ⟨ys, rfl⟩ := Pattern.eq_array_of_accepts hq
      rfl
  | swapped k =>
      obtain ⟨xs, rfl⟩ := Pattern.eq_array_of_accepts hp
      obtain ⟨ys, rfl⟩ := Pattern.eq_list_of_accepts hq
      rfl
  | arrays k =>
      obtain ⟨xs, rfl⟩ := Pattern.eq_array_of_accepts hp
      obtain ⟨ys, rfl⟩ := Pattern.eq_array_of_accepts hq
      simp [Verdict.ofBody?, TypedArray.equal?]

/-- The synthesized table of an operator has a case for patterns of two operands. -/
def Operator.Covers (op : Operator) (lhs rhs : Value ε) : Prop :=
  ∃ p q, p.accepts lhs = true ∧ q.accepts rhs = true ∧ ((synthesize op).get? p q).isSome = true

theorem Operator.covers_iff {op : Operator} {lhs rhs : Value ε}
    : op.Covers lhs rhs ↔ (op.table.select? lhs rhs).isSome = true := by
  rw [table_eq, Table.select?_eq]
  simp only [Covers, Pattern.accepts_eq, decide_eq_true_eq]
  cases lhs.pattern? <;> cases rhs.pattern? <;> simp

instance (op : Operator) (lhs rhs : Value ε) : Decidable (op.Covers lhs rhs) :=
  decidable_of_iff _ Operator.covers_iff.symm

/-- The body that an operator's table selects is one that the operator accepts on patterns of the
operands.
-/
theorem Operator.accepts_of_select? {op : Operator} {lhs rhs : Value ε} {body : Body}
    (h : op.table.select? lhs rhs = some body)
    : ∃ p q, p.accepts lhs = true ∧ q.accepts rhs = true ∧ op.Accepts p q body := by
  rw [table_eq] at h
  obtain ⟨arm, harm, hcases⟩ := Option.bind_eq_some_iff.mp h
  obtain ⟨case, hcase, rfl⟩ := Option.map_eq_some_iff.mp hcases
  refine ⟨arm.lhs, case.rhs, by simpa using List.find?_some harm,
    by simpa using List.find?_some hcase, ?_⟩
  exact Synthesis.accepts_of_mem_cells (Table.exists_cell_of_mem_arms
    (List.mem_of_find?_eq_some harm) (List.mem_of_find?_eq_some hcase))

theorem isSome_ofTable?_iff {lhs rhs : Value ε}
    : (Verdict.ofTable? lhs rhs).isSome = true ↔ Operator.equal.Covers lhs rhs := by
  rw [Operator.covers_iff, Verdict.ofTable?]
  cases hselect : Operator.equal.table.select? lhs rhs with
  | none => simp
  | some body =>
      obtain ⟨p, q, hp, hq, haccepts⟩ := Operator.accepts_of_select? hselect
      simpa using isSome_ofBody?_of_accepts haccepts hp hq

theorem isSome_ordered?_iff {relation : Ordered} {lhs rhs : Value ε}
    : (ordered? relation lhs rhs).isSome = true ↔ (Operator.order relation).Covers lhs rhs := by
  rw [Operator.covers_iff, ordered?, selected?]
  cases hselect : (Operator.order relation).table.select? lhs rhs with
  | none => simp
  | some body =>
      obtain ⟨p, q, hp, hq, haccepts⟩ := Operator.accepts_of_select? hselect
      obtain ⟨s, t, rfl, rfl, hrelate⟩ := isSome_relate?_of_accepts haccepts hp hq
      simpa [Value.scalar?] using hrelate

theorem isSome_computed?_iff {o : Arithmetic} {lhs rhs : Value ε}
    : (computed? o lhs rhs).isSome = true ↔ (Operator.compute o).Covers lhs rhs := by
  rw [Operator.covers_iff, computed?, selected?]
  cases hselect : (Operator.compute o).table.select? lhs rhs with
  | none => simp
  | some body =>
      obtain ⟨p, q, hp, hq, haccepts⟩ := Operator.accepts_of_select? hselect
      obtain ⟨s, t, rfl, rfl, hcompute⟩ := isSome_compute?_of_accepts haccepts hp hq
      simpa [Value.scalar?] using hcompute

variable [Extension ε]

/-- An application goes through the table exactly when the table covers the operands, by cases on
the group of the operator.
-/
theorem route_eq_table_iff {op : Operator} {lhs rhs : Value ε}
    : (dispatch op lhs rhs).route = .table ↔ op.Covers lhs rhs := by
  cases op with
  | equal =>
      rw [← isSome_ofTable?_iff, dispatch, equalRoute]
      cases (Verdict.ofTable? lhs rhs).isSome <;> simp
  | order relation =>
      rw [← isSome_ordered?_iff, dispatch]
      cases ordered? relation lhs rhs <;> simp [Application.invalid]
  | compute o =>
      rw [← isSome_computed?_iff, dispatch]
      cases computed? o lhs rhs <;> simp [Application.invalid]

theorem route_equal_of_not_covers {lhs rhs : Value ε} (h : ¬ Operator.equal.Covers lhs rhs)
    : (dispatch .equal lhs rhs).route = .fallback := by
  rw [← isSome_ofTable?_iff] at h
  rw [dispatch, equalRoute, if_neg h]

theorem dispatch_of_not_covers {op : Operator} {lhs rhs : Value ε} (hop : op ≠ .equal)
    (h : ¬ op.Covers lhs rhs)
    : dispatch op lhs rhs = .invalid op lhs rhs := by
  cases op with
  | equal => exact absurd rfl hop
  | order relation =>
      rw [← isSome_ordered?_iff, Bool.not_eq_true, Option.isSome_eq_false_iff,
        Option.isNone_iff_eq_none] at h
      rw [dispatch, h]
  | compute o =>
      rw [← isSome_computed?_iff, Bool.not_eq_true, Option.isSome_eq_false_iff,
        Option.isNone_iff_eq_none] at h
      rw [dispatch, h]

/-- The table comes first; around it equality falls back, and nothing else is valid. -/
theorem route_dispatch (op : Operator) (lhs rhs : Value ε)
    : (dispatch op lhs rhs).route
      = if op.Covers lhs rhs then .table else if op = .equal then .fallback else .invalid := by
  by_cases hcovers : op.Covers lhs rhs
  · rw [if_pos hcovers]
    exact route_eq_table_iff.mpr hcovers
  · rw [if_neg hcovers]
    by_cases hop : op = .equal
    · subst hop
      exact route_equal_of_not_covers hcovers
    · rw [if_neg hop, dispatch_of_not_covers hop hcovers]
      rfl

theorem result_of_route_invalid {op : Operator} {lhs rhs : Value ε}
    (h : (dispatch op lhs rhs).route = .invalid)
    : (dispatch op lhs rhs).result = .error (.invalid op lhs.typeName rhs.typeName) := by
  have hroute := route_dispatch op lhs rhs
  rw [h] at hroute
  split at hroute
  · cases hroute
  next hcovers =>
    split at hroute
    · cases hroute
    next hop =>
      rw [dispatch_of_not_covers hop hcovers]
      rfl

end DynamicOps
