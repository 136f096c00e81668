import DynamicOps.Table.Verification

/-!
The cases that operators support, as rules: which bodies each operator has on which pairs of
patterns. The check of a single case decides these rules together with agreement of promoted
bodies with the lattice, and it tells the two ways of failing apart.
-/

namespace DynamicOps

namespace Operator

/-- The bodies that an operator supports on a pair of patterns. Where the lattice promotes a pair,
promoting it is supported, be the domain right or wrong.
-/
inductive Supports : Operator → Pattern → Pattern → Body → Prop
  | promoted {op : Operator} {a b expected : Kind} (found : Kind)
    (h : promote op a b = some expected)
    : Supports op (.scalar a) (.scalar b) (.promote found)
  | equal (k : Kind) : Supports .equal (.scalar k) (.scalar k) .native
  | reference (k : Kind) : Supports .equal (.scalar k) (.refTo k) .native
  | order (relation : Ordered) {k : Kind} (h : k ≠ .bool)
    : Supports (.order relation) (.scalar k) (.scalar k) .native
  | concat : Supports (.compute .add) (.scalar .text) (.scalar .text) .concat
  | shift {o : Arithmetic} (h : o = .add ∨ o = .subtract)
    : Supports (.compute o) (.scalar .instant) (.scalar .duration) .shift
  | shiftBy : Supports (.compute .add) (.scalar .duration) (.scalar .instant) .shift
  | elapsed : Supports (.compute .subtract) (.scalar .instant) (.scalar .instant) .elapsed
  | checked {o : Arithmetic} (h : o = .add ∨ o = .subtract)
    : Supports (.compute o) (.scalar .duration) (.scalar .duration) .checked
  | elementwise (k : Kind) : Supports .equal (.array .any) (.array (.of k)) .elementwise
  | swapped (k : Kind) : Supports .equal (.array (.of k)) (.array .any) .swapped
  | arrays (k : Kind) : Supports .equal (.array (.of k)) (.array (.of k)) .native

/-- A promoted body on scalars has the domain that the lattice gives. -/
def Agrees (op : Operator) : Pattern → Pattern → Body → Prop
  | .scalar a, .scalar b, .promote found => promote op a b = some found
  | _, _, _ => True

/-- A case that an operator may have. -/
structure Accepts (op : Operator) (lhs rhs : Pattern) (body : Body) : Prop where
  supports : op.Supports lhs rhs body
  agrees : op.Agrees lhs rhs body

theorem lhs_of_supports_refTo {op : Operator} {p : Pattern} {k : Kind} {body : Body}
    (h : op.Supports p (.refTo k) body)
    : p = .scalar k := by
  cases h with
  | reference _ => rfl

end Operator

theorem supports_of_supported {op : Operator} {p q : Pattern} {body : Body}
    (h : supported op p q body = true)
    : op.Supports p q body := by
  unfold supported at h
  split at h
  case h_1 a b =>
    obtain ⟨rfl, hnative⟩ : a = b ∧ supportsNative op a = true := by simpa using h
    cases op with
    | equal => exact .equal a
    | order relation => exact .order relation (by simpa [supportsNative] using hnative)
    | compute _ => cases hnative
  case h_2 a b =>
    obtain ⟨rfl, rfl⟩ : a = b ∧ op = .equal := by simpa using h
    exact .reference a
  case h_3 =>
    obtain rfl : op = .compute .add := by simpa using h
    exact .concat
  case h_4 =>
    have hop : op = .compute .add ∨ op = .compute .subtract := by simpa using h
    rcases hop with rfl | rfl <;> exact .shift (by simp)
  case h_5 =>
    obtain rfl : op = .compute .add := by simpa using h
    exact .shiftBy
  case h_6 =>
    obtain rfl : op = .compute .subtract := by simpa using h
    exact .elapsed
  case h_7 =>
    have hop : op = .compute .add ∨ op = .compute .subtract := by simpa using h
    rcases hop with rfl | rfl <;> exact .checked (by simp)
  case h_8 k =>
    obtain rfl : op = .equal := by simpa using h
    exact .elementwise k
  case h_9 k =>
    obtain rfl : op = .equal := by simpa using h
    exact .swapped k
  case h_10 a b =>
    obtain ⟨rfl, rfl⟩ : a = b ∧ op = .equal := by simpa using h
    exact .arrays a
  case h_11 => cases h

/-- Every rule but the one for promoted bodies is a supported case. -/
theorem supported_of_supports {op : Operator} {p q : Pattern} {body : Body}
    (h : op.Supports p q body) (hbody : ∀ domain, body ≠ .promote domain)
    : supported op p q body = true := by
  cases h with
  | promoted found _ => exact absurd rfl (hbody found)
  | order relation hk => simp [supported, supportsNative, hk]
  | shift ho | checked ho => rcases ho with rfl | rfl <;> rfl
  | equal k | reference k | elementwise k | swapped k | arrays k =>
      simp [supported, supportsNative]
  | concat | shiftBy | elapsed => rfl

/-- The right outcomes of checking a case: it is accepted, or its operator does not support it, or
it is promoted to another domain than the lattice's.
-/
inductive Operator.Judges (op : Operator)
    : Pattern → Pattern → Body → Except TableError Unit → Prop
  | accepted {p q : Pattern} {body : Body} (h : op.Accepts p q body) : Judges op p q body (.ok ())
  | forbidden {p q : Pattern} {body : Body} (h : ¬ op.Supports p q body)
    : Judges op p q body (.error (.forbiddenCase op p q))
  | inconsistent {a b expected found : Kind} (h : promote op a b = some expected)
    (hne : expected ≠ found)
    : Judges op (.scalar a) (.scalar b) (.promote found)
        (.error (.inconsistent op a b expected found))

/-- Checking a case has a right outcome, by cases on whether the body promotes two scalars. -/
theorem checkCase_judges (op : Operator) (p q : Pattern) (body : Body)
    : op.Judges p q body (checkCase op p q body) := by
  unfold checkCase
  split
  case h_1 a b found =>
    cases hpromote : promote op a b with
    | none =>
        refine .forbidden fun h => ?_
        cases h with
        | promoted _ h => simp [hpromote] at h
    | some expected =>
        by_cases hfound : expected = found
        · subst hfound
          simp only [if_true]
          exact .accepted ⟨.promoted expected hpromote, hpromote⟩
        · simp only [if_neg hfound]
          exact .inconsistent hpromote hfound
  case h_2 hshape =>
    cases hsupported : supported op p q body with
    | true =>
        refine .accepted ⟨supports_of_supported hsupported, ?_⟩
        unfold Operator.Agrees
        split
        · exact absurd rfl (hshape _ _ _ rfl rfl)
        · trivial
    | false =>
        refine .forbidden fun h => ?_
        have hbody (domain : Kind) : body ≠ .promote domain := by
          rintro rfl
          cases h with
          | promoted _ _ => exact hshape _ _ _ rfl rfl rfl
        rw [supported_of_supports h hbody] at hsupported
        cases hsupported

theorem checkCase_eq_ok_iff {op : Operator} {p q : Pattern} {body : Body}
    : checkCase op p q body = .ok () ↔ op.Accepts p q body := by
  have hjudges := checkCase_judges op p q body
  revert hjudges
  generalize checkCase op p q body = outcome
  intro hjudges
  cases hjudges with
  | accepted h => exact iff_of_true rfl h
  | forbidden h => exact iff_of_false (by simp) fun haccepts => h haccepts.supports
  | inconsistent h hne =>
      refine iff_of_false (by simp) fun haccepts => hne ?_
      exact Option.some.inj (h.symm.trans haccepts.agrees)

end DynamicOps
