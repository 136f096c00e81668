import DynamicOps.Proofs.Text.Brackets
import DynamicOps.Table.Rendering

/-!
Brackets in the pieces of generated lines. Names hold no brackets, and every pattern, conversion,
and expression closes the brackets it opens, whatever its operator, kinds, and domain are, also
where verification refuses them.
-/

namespace DynamicOps

theorem Kind.inline_variant (k : Kind) : Inline k.variant := by
  intro before
  cases k with
  | int k => rcases k with w | w <;> cases w <;> rfl
  | float p => cases p <;> rfl
  | text | bool | instant | duration => rfl

theorem Kind.inline_payloadName (k : Kind) : Inline k.payloadName := by
  intro before
  cases k with
  | int k => rcases k with w | w <;> cases w <;> rfl
  | float p => cases p <;> rfl
  | text | bool | instant | duration => rfl

theorem Operator.inline_symbol (op : Operator) : Inline op.symbol := by
  intro before
  cases op with
  | equal => rfl
  | order o | compute o => cases o <;> rfl

theorem Operator.inline_variant (op : Operator) : Inline op.variant := by
  intro before
  cases op with
  | equal => rfl
  | order o | compute o => cases o <;> rfl

namespace Rendering

theorem inline_wrappingMethod {o : Arithmetic} {method : String}
    (h : wrappingMethod o = some method)
    : Inline method := by
  intro before
  cases o <;> cases h <;> rfl

theorem inline_pattern {bind text : String} {p : Pattern} (hbind : Inline bind)
    (h : pattern bind p = some text)
    : Inline text := by
  intro before
  rcases p with k | k | (_ | k) <;> cases h
  · simp only [openAfter?_append, k.inline_variant _, hbind _]
    rfl
  · simp only [openAfter?_append, hbind _]
    rfl
  · simp only [openAfter?_append, k.inline_variant _, hbind _]
    rfl

theorem inline_convert (k domain : Kind) {bind : String} (hbind : Inline bind)
    : Inline (convert k domain bind) := by
  intro before
  unfold convert
  split
  · split <;> simp only [openAfter?_append, hbind _] <;> rfl
  · split <;> simp only [openAfter?_append, domain.inline_payloadName _, hbind _] <;> rfl

theorem inline_arithmetic {o : Arithmetic} {domain : Kind} {x y text : String} (hx : Inline x)
    (hy : Inline y) (h : arithmetic o domain x y = some text)
    : Inline text := by
  intro before
  unfold arithmetic at h
  split at h
  next =>
    split at h
    next =>
      cases h
      simp only [openAfter?_append, hx _, hy _]
      rfl
    next =>
      obtain ⟨method, hmethod, rfl⟩ := Option.map_eq_some_iff.mp h
      simp only [openAfter?_append, hx _, hy _, inline_wrappingMethod hmethod _]
      rfl
  next =>
    split at h
    next =>
      split at h
      next => cases h
      next =>
        cases h
        simp only [openAfter?_append, hx _, hy _, Operator.inline_symbol _ _]
        rfl
    next =>
      split at h
      next =>
        obtain ⟨method, hmethod, rfl⟩ := Option.map_eq_some_iff.mp h
        simp only [openAfter?_append, hx _, hy _, inline_wrappingMethod hmethod _]
        rfl
      next => cases h

theorem inline_rangeChecked (op : Operator) {call variant : String} (hcall : Inline call)
    (hvariant : Inline variant)
    : Inline (rangeChecked op call variant) := by
  intro before
  simp only [rangeChecked, openAfter?_append, hcall _, hvariant _, op.inline_variant _]
  rfl

/-- Every expression closes its brackets, by cases on the body. -/
theorem inline_body {op : Operator} {lhs rhs : Pattern} {b : Body} {text : String}
    (h : body op lhs rhs b = some text)
    : Inline text := by
  cases b with
  | native =>
      intro before
      rw [body] at h
      split at h
      next =>
        cases h
        simp only [openAfter?_append, op.inline_symbol _]
        rfl
      next => cases h
  | promote domain =>
      cases lhs with
      | refTo _ | array _ => cases h
      | scalar a =>
          cases rhs with
          | refTo _ | array _ => cases h
          | scalar b =>
              have hx : Inline (convert a domain "x") := inline_convert a domain fun _ => rfl
              have hy : Inline (convert b domain "y") := inline_convert b domain fun _ => rfl
              cases op with
              | compute o => exact inline_arithmetic hx hy h
              | equal | order o =>
                  cases h
                  intro before
                  simp only [openAfter?_append, hx _, hy _, Operator.inline_symbol _ _]
                  rfl
  | concat | elapsed | swapped =>
      cases h
      exact fun _ => rfl
  | shift =>
      rw [body] at h
      split at h
      next =>
        cases h
        exact inline_rangeChecked op (fun _ => rfl) fun _ => rfl
      next =>
        split at h <;>
        · cases h
          exact inline_rangeChecked op (fun _ => rfl) fun _ => rfl
  | checked =>
      rw [body] at h
      split at h <;>
      · cases h
        exact inline_rangeChecked op (fun _ => rfl) fun _ => rfl
  | elementwise =>
      rcases rhs with k | k | (_ | k) <;> cases h
      intro before
      simp only [openAfter?_append, k.inline_variant _]
      rfl

end Rendering

end DynamicOps
