import DynamicOps.Proofs.Number.Wrapping
import DynamicOps.Proofs.Operation.Cases
import DynamicOps.Proofs.Operation.Routes
import DynamicOps.Value.Labelled

/-!
Outcomes of arithmetic. Whatever body an operator performs on two scalars ends in a scalar of a kind
that the operator and the two kinds determine, in the division of an integer by zero, or outside of
the range of time; and an operator that performs no body is invalid.
-/

namespace DynamicOps

namespace Arithmetic

/-- The kind of a result that the lattice has no kind for. -/
inductive Yields : Arithmetic → Kind → Kind → Kind → Prop
  | concat : Yields .add .text .text .text
  | later : Yields .add .instant .duration .instant
  | laterBy : Yields .add .duration .instant .instant
  | earlier : Yields .subtract .instant .duration .instant
  | elapsed : Yields .subtract .instant .instant .duration

/-- The kinds on which an operator may leave the range of instants or of durations. -/
inductive MayOverflow : Arithmetic → Kind → Kind → Prop
  | shift {o : Arithmetic} (h : o = .add ∨ o = .subtract) : MayOverflow o .instant .duration
  | shiftBy : MayOverflow .add .duration .instant
  | checked {o : Arithmetic} (h : o = .add ∨ o = .subtract) : MayOverflow o .duration .duration

/-- The operator takes the remainder of an integer by zero. -/
def ByZero (o : Arithmetic) (s t : Scalar) : Prop :=
  o = .modulo
  ∧ ∃ (k l : IntKind) (x : Word k) (y : Word l), s = ⟨.int k, x⟩ ∧ t = ⟨.int l, y⟩ ∧ y.val = 0

/-- What an operator may end in on two scalars. -/
inductive Outcome (o : Arithmetic) (s t : Scalar) : Except OpError Scalar → Prop
  | promoted {r : Scalar} (h : promote (.compute o) s.kind t.kind = some r.kind)
    : Outcome o s t (.ok r)
  | unpromoted {r : Scalar} (h : o.Yields s.kind t.kind r.kind) : Outcome o s t (.ok r)
  | divisionByZero (h : o.ByZero s t) : Outcome o s t (.error .divisionByZero)
  | overflow (h : o.MayOverflow s.kind t.kind) : Outcome o s t (.error (.overflow (.compute o)))

theorem Yields.promote_eq_none {o : Arithmetic} {k l m : Kind} (h : o.Yields k l m)
    : promote (.compute o) k l = none := by
  cases h <;> rfl

theorem MayOverflow.add_or_subtract {o : Arithmetic} {k l : Kind} (h : o.MayOverflow k l)
    : o = .add ∨ o = .subtract := by
  cases h with
  | shift ho | checked ho => exact ho
  | shiftBy => exact .inl rfl

theorem mem_pairwiseKinds (o : Arithmetic) {k : Kind} (h : k.isNumeric = true)
    : k ∈ (Operator.compute o).pairwiseKinds := by
  have hnumeric : k ∈ Registry.numeric := (Registry.mem_numeric k).mpr h
  cases o with
  | multiply => exact List.mem_append_left _ hnumeric
  | add | subtract | divide | modulo => exact hnumeric

theorem val_eq_zero_of_wrap {k : IntKind} {x : Word k} (h : (Word.wrap x.val).val = 0)
    : x.val = 0 := by
  have := x.val_bounds
  rw [Word.val_wrap_val] at h
  split at h <;> omega

/-- An operator on words has a word as its result unless it takes a remainder by zero. -/
theorem onWords?_cases {o : Arithmetic} {v w : Word64} {r : Except OpError Word64}
    (h : o.onWords? v w = some r)
    : (∃ u, r = .ok u) ∨ o = .modulo ∧ w.val = 0 ∧ r = .error .divisionByZero := by
  cases o with
  | add | subtract | multiply =>
      cases h
      exact .inl ⟨_, rfl⟩
  | divide => cases h
  | modulo =>
      by_cases hw : w.val = 0
      · simp only [onWords?, Word.remainder?, if_pos hw] at h
        cases h
        exact .inr ⟨rfl, hw, rfl⟩
      · simp only [onWords?, Word.remainder?, if_neg hw] at h
        cases h
        exact .inl ⟨_, rfl⟩

theorem Outcome.kind_eq {o : Arithmetic} {s t r : Scalar} (h : o.Outcome s t (.ok r))
    : (∀ k, promote (.compute o) s.kind t.kind = some k → r.kind = k)
      ∧ (promote (.compute o) s.kind t.kind = none → o.Yields s.kind t.kind r.kind) := by
  cases h with
  | promoted hpromote =>
      refine ⟨fun k hk => Option.some.inj (hpromote.symm.trans hk), fun hnone => ?_⟩
      cases hpromote.symm.trans hnone
  | unpromoted hyields =>
      refine ⟨fun k hk => ?_, fun _ => hyields⟩
      cases hyields.promote_eq_none.symm.trans hk

/-- Combining two promoted scalars gives one of the lattice's kind, or divides an integer by zero,
by cases on the domain.
-/
theorem outcome_of_promoted? {o : Arithmetic} {s t : Scalar} {domain : Kind}
    {result : Except OpError Scalar} (hpromote : promote (.compute o) s.kind t.kind = some domain)
    (h : o.promoted? domain s t = some result)
    : o.Outcome s t result := by
  obtain ⟨_, _, hdomain⟩ := domain_of_promote hpromote
  cases hdomain with
  | words _ =>
      simp only [promoted?, Option.bind_eq_bind, Option.bind_eq_some_iff, Option.some.injEq] at h
      obtain ⟨v, _, w, hw, r, hr, rfl⟩ := h
      rcases onWords?_cases hr with ⟨u, rfl⟩ | ⟨rfl, hzero, rfl⟩
      · exact .promoted hpromote
      · obtain ⟨hs, ht⟩ := isInteger_of_promote_modulo hpromote
        obtain ⟨k | _ | _ | _ | _ | _, x⟩ := s <;> try cases hs
        obtain ⟨l | _ | _ | _ | _ | _, y⟩ := t <;> try cases ht
        cases hw
        exact .divisionByZero ⟨rfl, k, l, x, y, rfl, rfl, val_eq_zero_of_wrap hzero⟩
  | binaries _ =>
      simp only [promoted?, Option.bind_eq_bind, Option.bind_eq_some_iff, Option.some.injEq] at h
      obtain ⟨x, _, y, _, r, _, rfl⟩ := h
      exact .promoted hpromote
  | durations _ hmodulo =>
      have ho : o ≠ .modulo := fun ho => hmodulo (congrArg _ ho)
      simp only [promoted?, Option.bind_eq_bind, Option.bind_eq_some_iff, if_neg ho,
        Option.some.injEq] at h
      obtain ⟨v, _, w, _, r, hr, rfl⟩ := h
      obtain ⟨u, rfl⟩ := (onWords?_cases hr).resolve_right fun hzero => ho hzero.1
      exact .promoted hpromote

theorem outcome_of_orOverflow {o : Arithmetic} {s t : Scalar} {k : Kind} (x : Option k.Payload)
    (hresult : ∀ y : k.Payload, o.Outcome s t (.ok ⟨k, y⟩)) (h : o.MayOverflow s.kind t.kind)
    : o.Outcome s t (o.orOverflow k x) := by
  cases x with
  | none => exact .overflow h
  | some y => exact hresult y

/-- Every body that an operator performs on two scalars ends in one of its outcomes. -/
theorem outcome_of_compute? {o : Arithmetic} {s t : Scalar} {body : Body}
    {result : Except OpError Scalar} (hbody : o.Performs s.kind t.kind body)
    (h : body.compute? o s t = some result)
    : o.Outcome s t result := by
  obtain ⟨k, x⟩ := s
  obtain ⟨l, y⟩ := t
  cases hbody with
  | promoted _ _ hpromote => exact outcome_of_promoted? hpromote h
  | concat =>
      cases h
      exact .unpromoted .concat
  | shift ho =>
      cases h
      refine outcome_of_orOverflow _ (fun _ => .unpromoted ?_) (.shift ho)
      rcases ho with rfl | rfl
      · exact .later
      · exact .earlier
  | shiftBy =>
      cases h
      exact outcome_of_orOverflow _ (fun _ => .unpromoted .laterBy) .shiftBy
  | checked ho =>
      cases h
      refine outcome_of_orOverflow _ (fun _ => .promoted ?_) (.checked ho)
      rcases ho with rfl | rfl <;> rfl
  | elapsed =>
      cases h
      exact .unpromoted .elapsed

end Arithmetic

variable {ε : Type} [Extension ε]

theorem outcome_of_apply_ok {o : Arithmetic} {lhs rhs v : Value ε}
    (h : apply (.compute o) lhs rhs = .ok v)
    : ∃ s t r, lhs = .scalar s ∧ rhs = .scalar t ∧ v = .scalar r ∧ o.Outcome s t (.ok r) := by
  cases hcomputed : computed? o lhs rhs with
  | none =>
      rw [apply_compute_of_none hcomputed] at h
      cases h
  | some result =>
      obtain ⟨s, t, body, rfl, rfl, hbody, hresult⟩ := computed?_eq_some_iff.mp hcomputed
      rw [apply_compute_of_some hcomputed] at h
      cases result with
      | error e => cases h
      | ok r =>
          cases h
          exact ⟨s, t, r, rfl, rfl, rfl, Arithmetic.outcome_of_compute? hbody hresult⟩

/-- An error of arithmetic is an outcome of two scalars, or that of an invalid operation. -/
theorem outcome_of_apply_error {o : Arithmetic} {lhs rhs : Value ε} {e : OpError}
    (h : apply (.compute o) lhs rhs = .error e)
    : (∃ s t, lhs = .scalar s ∧ rhs = .scalar t ∧ o.Outcome s t (.error e))
      ∨ e = .invalid (.compute o) lhs.typeName rhs.typeName := by
  cases hcomputed : computed? o lhs rhs with
  | none =>
      rw [apply_compute_of_none hcomputed] at h
      cases h
      exact .inr rfl
  | some result =>
      obtain ⟨s, t, body, rfl, rfl, hbody, hresult⟩ := computed?_eq_some_iff.mp hcomputed
      rw [apply_compute_of_some hcomputed] at h
      cases result with
      | ok r => cases h
      | error e' =>
          cases h
          exact .inl ⟨s, t, rfl, rfl, Arithmetic.outcome_of_compute? hbody hresult⟩

/-- Operands of the pairwise kinds have an outcome wherever the lattice has a kind for them. -/
theorem exists_outcome_of_resultKind? {o : Arithmetic} {lhs rhs : Value ε} {k l domain : Kind}
    (hk : lhs.kind? = some k) (hl : rhs.kind? = some l)
    (hkmem : k ∈ (Operator.compute o).pairwiseKinds)
    (hlmem : l ∈ (Operator.compute o).pairwiseKinds)
    (h : resultKind? (.compute o) lhs rhs = some domain)
    : ∃ s t result, lhs = .scalar s ∧ rhs = .scalar t ∧ o.Outcome s t result
        ∧ apply (.compute o) lhs rhs = result.map .scalar := by
  cases lhs <;> cases hk
  cases rhs <;> cases hl
  next s t =>
    obtain ⟨hs, ht, hdomain⟩ := domain_of_promote h
    obtain ⟨result, hresult⟩ :=
      Option.isSome_iff_exists.mp (Arithmetic.isSome_promoted? hs ht hdomain)
    exact ⟨s, t, result, rfl, rfl, Arithmetic.outcome_of_promoted? h hresult,
      apply_compute_of_performs (.promoted hkmem hlmem h) hresult⟩

theorem apply_modulo_by_zero {o : Arithmetic} {s t : Scalar} (h : o.ByZero s t)
    : apply (.compute o) (.scalar s : Value ε) (.scalar t) = .error .divisionByZero := by
  obtain ⟨rfl, k, l, x, y, rfl, rfl, hy⟩ := h
  have hkind (k : IntKind) : Kind.int k ∈ (Operator.compute .modulo).pairwiseKinds :=
    Arithmetic.mem_pairwiseKinds .modulo rfl
  have hzero : (Word.wrap x.val).remainder? (Word.wrap y.val) = none := by
    rw [hy]
    rfl
  have hcompute
      : (Body.promote .i64).compute? .modulo ⟨.int k, x⟩ ⟨.int l, y⟩
        = some (.error .divisionByZero) := by
    simp [Body.compute?, Arithmetic.promoted?, Scalar.toWord?, Arithmetic.onWords?, hzero,
      Except.map]
  exact apply_compute_of_performs (.promoted (hkind k) (hkind l) rfl) hcompute

theorem apply_eq_divisionByZero_iff {o : Arithmetic} {lhs rhs : Value ε}
    : apply (.compute o) lhs rhs = .error .divisionByZero
      ↔ ∃ s t, lhs = .scalar s ∧ rhs = .scalar t ∧ o.ByZero s t := by
  constructor
  · intro h
    rcases outcome_of_apply_error h with ⟨s, t, rfl, rfl, houtcome⟩ | heq
    · cases houtcome with
      | divisionByZero hzero => exact ⟨s, t, rfl, rfl, hzero⟩
    · cases heq
  · rintro ⟨s, t, rfl, rfl, hzero⟩
    exact apply_modulo_by_zero hzero

theorem exists_quotient {lhs rhs : Value ε} {k l : Kind} (hk : lhs.kind? = some k)
    (hl : rhs.kind? = some l) (hknumeric : k.isNumeric = true) (hlnumeric : l.isNumeric = true)
    : ∃ v, apply (.compute .divide) lhs rhs = .ok v := by
  have hdomain : resultKind? (.compute .divide) lhs rhs = some .f64 := by
    simp [resultKind?, hk, hl, promote, Kind.isArithmetic, hknumeric, hlnumeric]
  obtain ⟨_, _, result, -, -, houtcome, h⟩ := exists_outcome_of_resultKind? hk hl
    (Arithmetic.mem_pairwiseKinds _ hknumeric) (Arithmetic.mem_pairwiseKinds _ hlnumeric) hdomain
  cases houtcome with
  | promoted _ | unpromoted _ => exact ⟨_, h⟩
  | divisionByZero hzero => cases hzero.1
  | overflow hmay => rcases hmay.add_or_subtract with ho | ho <;> cases ho

theorem mayOverflow_of_apply {o : Arithmetic} {lhs rhs : Value ε} {op : Operator}
    (h : apply (.compute o) lhs rhs = .error (.overflow op))
    : op = .compute o ∧ ∃ s t, lhs = .scalar s ∧ rhs = .scalar t ∧ o.MayOverflow s.kind t.kind := by
  rcases outcome_of_apply_error h with ⟨s, t, rfl, rfl, houtcome⟩ | heq
  · cases houtcome with
    | overflow hmay => exact ⟨rfl, s, t, rfl, rfl, hmay⟩
  · cases heq

theorem apply_ne_invalid {o : Arithmetic} {lhs rhs : Value ε} {k l : Kind} {op : Operator}
    {a b : String} (hk : lhs.kind? = some k) (hl : rhs.kind? = some l)
    (hkmem : k ∈ (Operator.compute o).pairwiseKinds)
    (hlmem : l ∈ (Operator.compute o).pairwiseKinds)
    (hsome : (resultKind? (.compute o) lhs rhs).isSome = true)
    : apply (.compute o) lhs rhs ≠ .error (.invalid op a b) := by
  obtain ⟨domain, hdomain⟩ := Option.isSome_iff_exists.mp hsome
  obtain ⟨s, t, result, -, -, houtcome, hresult⟩ :=
    exists_outcome_of_resultKind? hk hl hkmem hlmem hdomain
  rw [hresult]
  cases houtcome <;> simp [Except.map]

theorem names_of_invalid {o : Arithmetic} {lhs rhs : Value ε} {op : Operator} {a b : String}
    (h : apply (.compute o) lhs rhs = .error (.invalid op a b))
    : op = .compute o ∧ a = lhs.typeName ∧ b = rhs.typeName := by
  rcases outcome_of_apply_error h with ⟨s, t, rfl, rfl, houtcome⟩ | heq
  · cases houtcome
  · cases heq
    exact ⟨rfl, rfl, rfl⟩

theorem apply_compute_of_no_scalar {o : Arithmetic} {lhs rhs : Value ε}
    (h : lhs.scalar? = none ∨ rhs.scalar? = none)
    : apply (.compute o) lhs rhs = .error (.invalid (.compute o) lhs.typeName rhs.typeName) := by
  refine apply_compute_of_none (Option.eq_none_iff_forall_ne_some.mpr fun result hcomputed => ?_)
  obtain ⟨s, t, _, rfl, rfl, _⟩ := computed?_eq_some_iff.mp hcomputed
  rcases h with h | h <;> cases h

/-- What an arithmetic operator may answer on two values. -/
structure Arithmetic.Classified (o : Arithmetic) (lhs rhs : Value ε) : Prop where
  /-- A result is a scalar of the lattice's kind, or of the kind that text and time give. -/
  result : ∀ v, apply (.compute o) lhs rhs = .ok v →
    ∃ s t r, lhs = .scalar s ∧ rhs = .scalar t ∧ v = .scalar r
      ∧ (∀ k, resultKind? (.compute o) lhs rhs = some k → r.kind = k)
      ∧ (resultKind? (.compute o) lhs rhs = none → o.Yields s.kind t.kind r.kind)
  /-- A division by zero is the remainder of two integers of which the second one is zero. -/
  divisionByZero : apply (.compute o) lhs rhs = .error .divisionByZero
    ↔ ∃ s t, lhs = .scalar s ∧ rhs = .scalar t ∧ o.ByZero s t
  /-- Division has a result on all numbers. -/
  quotient : ∀ k l, o = .divide → lhs.kind? = some k → rhs.kind? = some l →
    k.isNumeric = true → l.isNumeric = true → ∃ v, apply (.compute o) lhs rhs = .ok v
  /-- An overflow is one of its operator, on an instant and a duration or on two durations. -/
  overflow : ∀ op, apply (.compute o) lhs rhs = .error (.overflow op) →
    op = .compute o
      ∧ ∃ s t, lhs = .scalar s ∧ rhs = .scalar t ∧ o.MayOverflow s.kind t.kind
  /-- Nothing is invalid on pairwise kinds that the lattice has a kind for. -/
  valid : ∀ k l, lhs.kind? = some k → rhs.kind? = some l →
    k ∈ (Operator.compute o).pairwiseKinds → l ∈ (Operator.compute o).pairwiseKinds →
    (resultKind? (.compute o) lhs rhs).isSome = true →
    ∀ op a b, apply (.compute o) lhs rhs ≠ .error (.invalid op a b)
  /-- An invalid operation names the operator and both types. -/
  invalid : ∀ op a b, apply (.compute o) lhs rhs = .error (.invalid op a b) →
    op = .compute o ∧ a = lhs.typeName ∧ b = rhs.typeName
  /-- Everything is invalid on a value that is no scalar. -/
  noScalar : lhs.scalar? = none ∨ rhs.scalar? = none →
    apply (.compute o) lhs rhs = .error (.invalid (.compute o) lhs.typeName rhs.typeName)

/-- Every arithmetic operator is classified on every two values, by the outcomes of its bodies. -/
theorem arithmetic_classified (o : Arithmetic) (lhs rhs : Value ε) : o.Classified lhs rhs where
  result v h := by
    obtain ⟨s, t, r, rfl, rfl, rfl, houtcome⟩ := outcome_of_apply_ok h
    exact ⟨s, t, r, rfl, rfl, rfl, houtcome.kind_eq⟩
  divisionByZero := apply_eq_divisionByZero_iff
  quotient k l ho hk hl hknumeric hlnumeric := by
    subst ho
    exact exists_quotient hk hl hknumeric hlnumeric
  overflow op h := mayOverflow_of_apply h
  valid k l hk hl hkmem hlmem hsome op a b := apply_ne_invalid hk hl hkmem hlmem hsome
  invalid op a b h := names_of_invalid h
  noScalar h := apply_compute_of_no_scalar h

/-- An integer has no remainder by a zero of a narrower kind. -/
theorem arithmetic_classified_by_zero
    : apply (.compute .modulo)
        (.scalar ⟨.int (.signed .w64), ⟨7, by decide, by decide⟩⟩ : Value Labelled)
        (.scalar ⟨.int (.unsigned .w8), ⟨0, by decide, by decide⟩⟩)
      = .error .divisionByZero :=
  (arithmetic_classified .modulo _ _).divisionByZero.mpr
    ⟨_, _, rfl, rfl, rfl, _, _, _, _, rfl, rfl, rfl⟩

end DynamicOps
