import DynamicOps.Registry.Promotion

/-!
Where the lattice has an answer. It promotes arithmetic kinds only, and to one of three domains,
each of which has every operator that is promoted to it.
-/

namespace DynamicOps

/-- The domains that an operator combines promoted operands in. Words have no division, floating
numbers no remainder, and durations neither of them.
-/
inductive Operator.Domain : Operator → Kind → Prop
  | words {op : Operator} (h : op ≠ .compute .divide) : Domain op .i64
  | binaries {op : Operator} (h : op ≠ .compute .modulo) : Domain op .f64
  | durations {op : Operator} (hdivide : op ≠ .compute .divide) (hmodulo : op ≠ .compute .modulo)
    : Domain op .duration

/-- A promoted pair has arithmetic kinds and a domain of its operator, by the precedence of the
lattice's rules.
-/
theorem domain_of_promote {op : Operator} {a b domain : Kind}
    (h : promote op a b = some domain)
    : a.isArithmetic = true ∧ b.isArithmetic = true ∧ op.Domain domain := by
  unfold promote at h
  split at h
  · cases h
  next harithmetic =>
    obtain ⟨ha, hb⟩ : a.isArithmetic = true ∧ b.isArithmetic = true := by
      simpa using harithmetic
    refine ⟨ha, hb, ?_⟩
    split at h
    next hdivide =>
      cases h
      exact .binaries (by simp [hdivide])
    next hdivide =>
      split at h
      next hmodulo =>
        split at h <;> cases h
        exact .words hdivide
      next hmodulo =>
        split at h
        · cases h
          exact .durations hdivide hmodulo
        · split at h <;> cases h
          · exact .binaries hmodulo
          · exact .words hdivide

/-- The lattice does not depend on the order of two kinds. -/
theorem promote_comm (op : Operator) (k l : Kind) : promote op k l = promote op l k := by
  unfold promote
  rw [Bool.or_comm, Bool.and_comm k.isInteger, Bool.or_comm (decide (k = .duration)),
    Bool.or_comm k.isFloat]

theorem isInteger_of_promote_modulo {k l domain : Kind}
    (h : promote (.compute .modulo) k l = some domain)
    : k.isInteger = true ∧ l.isInteger = true := by
  simp only [promote] at h
  split at h
  · cases h
  · simp only [Operator.compute.injEq, reduceCtorEq, if_false, if_true] at h
    split at h
    next hinteger => exact Bool.and_eq_true_iff.mp hinteger
    next => cases h

end DynamicOps
