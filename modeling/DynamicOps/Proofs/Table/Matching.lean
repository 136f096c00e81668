import DynamicOps.Proofs.Verification.Decision
import DynamicOps.Value.Basic

/-!
Tables as nested matches. The text of a table matches the left operand, then the right one, and a
case for a reference opens on every reference before it looks at the target, so that the cases
after it are not tried for references any more. In a consistent table this hides no case, since the
references of one arm all have its kind.
-/

namespace DynamicOps

variable {ε : Type}

/-- A pattern on the right opens on a value: one for references on any of them. -/
def Pattern.opens : Pattern → Value ε → Bool
  | .refTo _, v => v.isRef
  | p, v => p.accepts v

/-- The body that the match of an arm runs into: that of the first case that opens, if its pattern
then accepts the value.
-/
def matchedCase? (cases : List Case) (rhs : Value ε) : Option Body :=
  (cases.find? (·.rhs.opens rhs)).bind fun c => if c.rhs.accepts rhs then some c.body else none

/-- The body that the nested match of a table runs into. -/
def Table.matched? (t : Table) (lhs rhs : Value ε) : Option Body :=
  (t.arms.find? (·.lhs.accepts lhs)).bind fun arm => matchedCase? arm.cases rhs

theorem Pattern.opens_of_accepts {p : Pattern} {v : Value ε} (h : p.accepts v = true)
    : p.opens v = true := by
  cases p with
  | scalar _ | array _ => exact h
  | refTo k =>
      cases v with
      | ref _ => rfl
      | nil | scalar _ | array _ | list _ | record _ | extension _ => cases h

/-- A pattern that opens on a value it does not accept is one for references, and so is every
pattern that accepts the value.
-/
theorem Pattern.eq_refTo_of_opens {p : Pattern} {v : Value ε} (hopens : p.opens v = true)
    (haccepts : p.accepts v = false)
    : (∃ k, p = .refTo k) ∧ ∀ q : Pattern, q.accepts v = true → ∃ l, q = .refTo l := by
  cases p with
  | scalar _ | array _ => exact absurd (haccepts.symm.trans hopens) (by simp)
  | refTo k =>
      refine ⟨⟨k, rfl⟩, fun q hq => ?_⟩
      cases v with
      | nil | scalar _ | array _ | list _ | record _ | extension _ => cases hopens
      | ref r =>
          rcases q with l | l | (_ | l)
          · cases hq
          · exact ⟨l, rfl⟩
          · cases hq
          · cases hq

/-- Among cases whose references all have one kind, the match runs into the first case that accepts
the value, by induction over the cases.
-/
theorem matchedCase?_eq {cases : List Case} {rhs : Value ε}
    (hkind : ∀ c ∈ cases, ∀ d ∈ cases, ∀ k l, c.rhs = .refTo k → d.rhs = .refTo l → k = l)
    : matchedCase? cases rhs = (cases.find? (·.rhs.accepts rhs)).map (·.body) := by
  induction cases with
  | nil => rfl
  | cons c cases ih =>
      cases hopens : c.rhs.opens rhs with
      | false =>
          have haccepts : c.rhs.accepts rhs = false := by
            rw [← Bool.not_eq_true]
            intro h
            rw [Pattern.opens_of_accepts h] at hopens
            cases hopens
          have htail := ih fun d hd e he =>
            hkind d (List.mem_cons_of_mem _ hd) e (List.mem_cons_of_mem _ he)
          simpa [matchedCase?, hopens, haccepts] using htail
      | true =>
          cases haccepts : c.rhs.accepts rhs with
          | true => simp [matchedCase?, hopens, haccepts]
          | false =>
              -- The arm gives up here, and no later case could accept the reference.
              obtain ⟨⟨k, hk⟩, hrefs⟩ := Pattern.eq_refTo_of_opens hopens haccepts
              have hnone : cases.find? (·.rhs.accepts rhs) = none := by
                rw [List.find?_eq_none]
                intro d hd hd'
                obtain ⟨l, hl⟩ := hrefs d.rhs hd'
                obtain rfl := hkind c (by simp) d (List.mem_cons_of_mem _ hd) k l hk hl
                rw [hl, ← hk, haccepts] at hd'
                cases hd'
              simp [matchedCase?, hopens, haccepts, hnone]

/-- The nested match of a consistent table runs into the case that the table selects. -/
theorem Table.matched?_eq_select? {t : Table} (h : t.Consistent) (lhs rhs : Value ε)
    : t.matched? lhs rhs = t.select? lhs rhs := by
  rw [matched?, select?]
  cases hfind : t.arms.find? (·.lhs.accepts lhs) with
  | none => rfl
  | some arm =>
      have harm : arm ∈ t.arms := List.mem_of_find?_eq_some hfind
      have hlhs {c : Case} (hc : c ∈ arm.cases) {k : Kind} (hk : c.rhs = .refTo k)
          : arm.lhs = .scalar k := by
        have haccepts := checkCase_eq_ok_iff.mp (h.accepted arm harm c hc)
        exact Operator.lhs_of_supports_refTo (hk ▸ haccepts.supports)
      rw [Option.bind_some, Option.bind_some]
      refine matchedCase?_eq fun c hc d hd k l hk hl => ?_
      exact Pattern.scalar.inj ((hlhs hc hk).symm.trans (hlhs hd hl))

end DynamicOps
