import DynamicOps.Proofs.Number.Wrapping
import DynamicOps.Proofs.Ordering.Consistency
import Mathlib.Tactic.SplitIfs

/-!
Comparisons of integers. Two integers of one kind compare as they are, and two of different kinds
as 64-bit signed words. Between kinds that is right unless one integer lies above those words and
falls, as a word, to the other one or below it.
-/

namespace DynamicOps

/-- An integer lies above the 64-bit signed words and another one does not, but as a word the former
is not greater than the latter any more.
-/
def Overtaken (m n : Int) : Prop :=
  9223372036854775807 < m ∧ n ≤ 9223372036854775807 ∧ m - 18446744073709551616 ≤ n

instance (m n : Int) : Decidable (Overtaken m n) :=
  inferInstanceAs (Decidable (_ ∧ _))

namespace Word

variable {k l : IntKind}

/-- Two integers have the order of their words unless one is overtaken by the other: where both fall
or both stay the order does not change, and where one falls it has to stay above.
-/
theorem wrap_order_iff (x : Word k) (y : Word l)
    : (x.val < y.val ↔ (wrap x.val).val < (wrap y.val).val)
        ∧ (y.val < x.val ↔ (wrap y.val).val < (wrap x.val).val)
      ↔ ¬ (Overtaken x.val y.val ∨ Overtaken y.val x.val) := by
  have := x.val_bounds
  have := y.val_bounds
  rw [val_wrap_val, val_wrap_val]
  unfold Overtaken
  split_ifs <;> omega

end Word

variable {ε : Type} [Extension ε]

/-- The five comparisons answer on two values as two integers compare. -/
def ComparedAs (a b : Value ε) (m n : Int) : Prop :=
  Comparisons a b (m < n) (m = n) (n < m)

theorem Comparisons.answers_eq {a b : Value ε} {lt eq gt lt' eq' gt' : Bool}
    (h : Comparisons a b lt eq gt) (h' : Comparisons a b lt' eq' gt')
    : lt = lt' ∧ eq = eq' ∧ gt = gt' := by
  have hanswer {op : Operator} {p q : Bool} (hp : apply op a b = .ok (.ofBool p))
      (hq : apply op a b = .ok (.ofBool q))
      : p = q := by
    simpa [Value.ofBool, Scalar.ofBool] using hp.symm.trans hq
  exact ⟨hanswer h.less h'.less, hanswer h.equal h'.equal, hanswer h.more h'.more⟩

/-- Two values that compare as two integers compare as the integers with the same order. -/
theorem ComparedAs.iff_order {a b : Value ε} {m n m' n' : Int} (h : ComparedAs a b m' n')
    : ComparedAs a b m n ↔ (m < n ↔ m' < n') ∧ (n < m ↔ n' < m') := by
  constructor
  · intro h'
    obtain ⟨hless, _, hmore⟩ := h'.answers_eq h
    exact ⟨decide_eq_decide.mp hless, decide_eq_decide.mp hmore⟩
  · rintro ⟨hless, hmore⟩
    have hequal : m = n ↔ m' = n' := by omega
    rw [ComparedAs, decide_eq_decide.mpr hless, decide_eq_decide.mpr hequal,
      decide_eq_decide.mpr hmore]
    exact h

variable {k l : IntKind}

theorem comparedAs_same_kind (x y : Word k)
    : ComparedAs (.scalar ⟨.int k, x⟩ : Value ε) (.scalar ⟨.int k, y⟩) x.val y.val := by
  have hbody : orderingBody? (.int k) (.int k) = some .native := by
    simp [orderingBody?, equalityBody?]
  refine comparisons_of_relate? (k := .int k) hbody fun rel => ?_
  simp [Body.relate?, Scalar.related?]

theorem comparedAs_of_kind_ne (hkl : k ≠ l) (x : Word k) (y : Word l)
    : ComparedAs (.scalar ⟨.int k, x⟩ : Value ε) (.scalar ⟨.int l, y⟩)
        (Word.wrap x.val).val (Word.wrap y.val).val := by
  have hpromote : promote .equal (.int k) (.int l) = some .i64 := rfl
  have hbody : orderingBody? (.int k) (.int l) = some (.promote .i64) := by
    simp [orderingBody?, equalityBody?, hkl, Kind.isNumeric, Kind.isInteger, hpromote]
  exact comparisons_of_relate? (k := .i64) hbody fun _ => rfl

/-- Two integers of one kind compare as they are, and two of different kinds as 64-bit words. Either
way they compare as they are exactly if they have one kind or neither is overtaken by the other. So
a wide unsigned integer does not order below a smaller one of its kind, or below one as wide.
-/
theorem integers_compared (x : Word k) (y : Word l)
    : (k = l → ComparedAs (.scalar ⟨.int k, x⟩ : Value ε) (.scalar ⟨.int l, y⟩) x.val y.val)
      ∧ (k ≠ l →
          ComparedAs (.scalar ⟨.int k, x⟩ : Value ε) (.scalar ⟨.int l, y⟩)
            (Word.wrap x.val).val (Word.wrap y.val).val)
      ∧ (ComparedAs (.scalar ⟨.int k, x⟩ : Value ε) (.scalar ⟨.int l, y⟩) x.val y.val
          ↔ k = l ∨ ¬ (Overtaken x.val y.val ∨ Overtaken y.val x.val))
      ∧ (9223372036854775807 < x.val → y.val < x.val → k = l ∨ 9223372036854775807 < y.val →
          apply (.order .less) (.scalar ⟨.int k, x⟩ : Value ε) (.scalar ⟨.int l, y⟩)
            = .ok (.ofBool false)) := by
  have hsame (hkl : k = l)
      : ComparedAs (.scalar ⟨.int k, x⟩ : Value ε) (.scalar ⟨.int l, y⟩) x.val y.val := by
    subst hkl
    exact comparedAs_same_kind x y
  have hiff : ComparedAs (.scalar ⟨.int k, x⟩ : Value ε) (.scalar ⟨.int l, y⟩) x.val y.val
      ↔ k = l ∨ ¬ (Overtaken x.val y.val ∨ Overtaken y.val x.val) := by
    by_cases hkl : k = l
    · exact iff_of_true (hsame hkl) (.inl hkl)
    · rw [or_iff_right hkl, (comparedAs_of_kind_ne hkl x y).iff_order, Word.wrap_order_iff]
  refine ⟨hsame, fun hkl => comparedAs_of_kind_ne hkl x y, hiff, fun hwide hless hkinds => ?_⟩
  have hexact : ComparedAs (.scalar ⟨.int k, x⟩ : Value ε) (.scalar ⟨.int l, y⟩) x.val y.val := by
    refine hiff.mpr (hkinds.imp_right fun hwide' => ?_)
    unfold Overtaken
    omega
  rw [hexact.less, decide_eq_false (by omega)]

/-- Of two wide integers in two kinds the greater one does not order below the other. -/
theorem integers_compared_wide
    : 9223372036854775807 < (18446744073709551615 : Int)
      ∧ 9223372036854775807 < (9223372036854775808 : Int)
      ∧ apply (.order .less)
          (.scalar ⟨.int (.unsigned .w64), ⟨18446744073709551615, by decide, by decide⟩⟩
            : Value Labelled)
          (.scalar ⟨.int (.unsigned .size), ⟨9223372036854775808, by decide, by decide⟩⟩)
        = .ok (.ofBool false) :=
  ⟨by decide, by decide, (integers_compared _ _).2.2.2 (by decide) (by decide) (.inr (by decide))⟩

/-- The greatest 64-bit unsigned integer is overtaken by the number one of a narrower kind. -/
theorem wide_integer_below_one
    : apply (.order .less)
          (.scalar ⟨.int (.unsigned .w64), ⟨18446744073709551615, by decide, by decide⟩⟩
            : Value Labelled)
          (.scalar ⟨.int (.unsigned .w8), ⟨1, by decide, by decide⟩⟩)
        = .ok (.ofBool true)
      ∧ ¬ ComparedAs
          (.scalar ⟨.int (.unsigned .w64), ⟨18446744073709551615, by decide, by decide⟩⟩
            : Value Labelled)
          (.scalar ⟨.int (.unsigned .w8), ⟨1, by decide, by decide⟩⟩) 18446744073709551615 1 := by
  have hwords : ComparedAs
      (.scalar ⟨.int (.unsigned .w64), ⟨18446744073709551615, by decide, by decide⟩⟩
        : Value Labelled)
      (.scalar ⟨.int (.unsigned .w8), ⟨1, by decide, by decide⟩⟩) (-1) 1 :=
    comparedAs_of_kind_ne (by decide) _ _
  refine ⟨hwords.less, ?_⟩
  rw [hwords.iff_order]
  decide

end DynamicOps
