import DynamicOps.Proofs.Arithmetic.Outcomes

/-!
Commutativity of addition and multiplication. The two orders of two operands are separate cases of a
table, with different bodies for an instant and a duration. Every case but that of two texts has a
case in the other order that computes the same, so that the two orders end alike.
-/

namespace DynamicOps

theorem Duration.add?_comm (d e : Duration) : d.add? e = e.add? d := by
  rw [add?, add?, Int.add_comm d.seconds, Int.add_comm d.rest]

namespace Arithmetic

theorem onWords?_comm {o : Arithmetic} (ho : o = .add ∨ o = .multiply) (v w : Word64)
    : o.onWords? v w = o.onWords? w v := by
  rcases ho with rfl | rfl
  · rw [onWords?, onWords?, Word.add_comm]
  · rw [onWords?, onWords?, Word.multiply_comm]

/-- Promoted scalars are combined as words, in either order alike, unless their domain is floating.
-/
theorem promoted?_comm {o : Arithmetic} (ho : o = .add ∨ o = .multiply) {domain : Kind}
    (hdomain : domain ≠ .f64) (s t : Scalar)
    : o.promoted? domain s t = o.promoted? domain t s := by
  unfold promoted?
  split
  · cases s.toWord? <;> cases t.toWord? <;> simp [onWords?_comm ho]
  · cases s.toWord? <;> cases t.toWord? <;> simp [onWords?_comm ho]
  · exact absurd rfl hdomain
  · rfl

/-- Whatever is performed on two scalars has a body in the other order with the same result, by
cases on what is performed.
-/
theorem exists_performs_swapped {o : Arithmetic} {s t : Scalar} {body : Body}
    (ho : o = .add ∨ o = .multiply)
    (htexts : ¬ (o = .add ∧ s.kind = .text ∧ t.kind = .text))
    (hdomain : promote (.compute o) s.kind t.kind ≠ some .f64)
    (h : o.Performs s.kind t.kind body)
    : ∃ body', o.Performs t.kind s.kind body' ∧ body'.compute? o t s = body.compute? o s t := by
  have hadd (h : o = .add ∨ o = .subtract) : o = .add := by
    rcases ho with rfl | rfl
    · rfl
    · simp at h
  obtain ⟨k, x⟩ := s
  obtain ⟨l, y⟩ := t
  cases h with
  | @promoted _ _ _ domain hk hl hpromote =>
      have hfloat : domain ≠ .f64 := by
        rintro rfl
        exact hdomain hpromote
      exact ⟨.promote domain, .promoted hl hk (promote_comm _ k l ▸ hpromote),
        promoted?_comm ho hfloat _ _⟩
  | concat => exact absurd ⟨rfl, rfl, rfl⟩ htexts
  | shift h =>
      obtain rfl := hadd h
      exact ⟨.shift, .shiftBy, rfl⟩
  | shiftBy => exact ⟨.shift, .shift (.inl rfl), rfl⟩
  | checked h =>
      obtain rfl := hadd h
      refine ⟨.checked, .checked (.inl rfl), ?_⟩
      simp only [Body.compute?, checked?, reduceCtorEq, if_false, Duration.add?_comm y x]
  | elapsed => simp at ho

end Arithmetic

variable {ε : Type}

theorem resultKind?_comm (op : Operator) (lhs rhs : Value ε)
    : resultKind? op lhs rhs = resultKind? op rhs lhs := by
  unfold resultKind?
  cases lhs.kind? <;> cases rhs.kind? <;> simp [promote_comm op]

theorem computed?_swapped {o : Arithmetic} {lhs rhs : Value ε} {result : Except OpError Scalar}
    (ho : o = .add ∨ o = .multiply)
    (htexts : ¬ (o = .add ∧ lhs.kind? = some .text ∧ rhs.kind? = some .text))
    (hdomain : resultKind? (.compute o) lhs rhs ≠ some .f64)
    (h : computed? o lhs rhs = some result)
    : computed? o rhs lhs = some result := by
  obtain ⟨s, t, body, rfl, rfl, hbody, hresult⟩ := computed?_eq_some_iff.mp h
  simp only [Value.kind?, Option.some.injEq] at htexts
  obtain ⟨body', hbody', hswapped⟩ :=
    Arithmetic.exists_performs_swapped ho htexts hdomain hbody
  exact computed?_eq_some_iff.mpr ⟨t, s, body', rfl, rfl, hbody', hswapped.trans hresult⟩

variable [Extension ε]

/-- Two operands have the same result in either order, or overflow the range of time in both, or are
invalid in both with the names of their types exchanged.
-/
inductive Arithmetic.Commutes (o : Arithmetic) (lhs rhs : Value ε) : Prop
  | result (v : Value ε) (h : apply (.compute o) lhs rhs = .ok v)
    (hswapped : apply (.compute o) rhs lhs = .ok v)
  | overflow (h : apply (.compute o) lhs rhs = .error (.overflow (.compute .add)))
    (hswapped : apply (.compute o) rhs lhs = .error (.overflow (.compute .add)))
  | invalid
    (h : apply (.compute o) lhs rhs
      = .error (.invalid (.compute o) lhs.typeName rhs.typeName))
    (hswapped : apply (.compute o) rhs lhs
      = .error (.invalid (.compute o) rhs.typeName lhs.typeName))

/-- Addition and multiplication commute on all values but two texts and pairs with a floating
domain, since both orders compute the same or neither computes.
-/
theorem addition_and_multiplication_commute {o : Arithmetic} {lhs rhs : Value ε}
    (ho : o = .add ∨ o = .multiply)
    (htexts : ¬ (o = .add ∧ lhs.kind? = some .text ∧ rhs.kind? = some .text))
    (hdomain : resultKind? (.compute o) lhs rhs ≠ some .f64)
    : o.Commutes lhs rhs := by
  cases hcomputed : computed? o lhs rhs with
  | none =>
      have htexts' : ¬ (o = .add ∧ rhs.kind? = some .text ∧ lhs.kind? = some .text) :=
        fun h => htexts ⟨h.1, h.2.2, h.2.1⟩
      have hdomain' : resultKind? (.compute o) rhs lhs ≠ some .f64 :=
        resultKind?_comm _ lhs rhs ▸ hdomain
      have hswapped : computed? o rhs lhs = none := by
        refine Option.eq_none_iff_forall_ne_some.mpr fun result h => ?_
        cases hcomputed.symm.trans (computed?_swapped ho htexts' hdomain' h)
      exact .invalid (apply_compute_of_none hcomputed) (apply_compute_of_none hswapped)
  | some result =>
      have h := apply_compute_of_some hcomputed
      have hswapped := apply_compute_of_some (computed?_swapped ho htexts hdomain hcomputed)
      obtain ⟨s, t, body, -, -, hbody, hresult⟩ := computed?_eq_some_iff.mp hcomputed
      cases Arithmetic.outcome_of_compute? hbody hresult with
      | promoted _ | unpromoted _ => exact .result _ h hswapped
      | divisionByZero hzero =>
          obtain ⟨rfl, _⟩ := hzero
          simp at ho
      | overflow hmay =>
          obtain rfl : o = .add := by
            rcases hmay.add_or_subtract with rfl | rfl
            · rfl
            · simp at ho
          exact .overflow h hswapped

/-- An instant in a leap second and a duration that leaves it have one sum in both orders. -/
theorem addition_and_multiplication_commute_leap_second
    : apply (.compute .add)
        (.scalar ⟨.duration, ⟨600000000, by decide, by decide⟩⟩ : Value Labelled)
        (.scalar ⟨.instant, ⟨59, 1500000000, by decide, by decide, by decide, by decide⟩⟩)
      = .ok (.scalar ⟨.instant, ⟨60, 100000000, by decide, by decide, by decide, by decide⟩⟩) := by
  have hlater := @apply_compute_of_performs Labelled _ .add
    ⟨.instant, ⟨59, 1500000000, by decide, by decide, by decide, by decide⟩⟩
    ⟨.duration, ⟨600000000, by decide, by decide⟩⟩ .shift _ (.shift (.inl rfl)) rfl
  cases @addition_and_multiplication_commute Labelled _ .add
    (.scalar ⟨.instant, ⟨59, 1500000000, by decide, by decide, by decide, by decide⟩⟩)
    (.scalar ⟨.duration, ⟨600000000, by decide, by decide⟩⟩) (.inl rfl) (by simp [Value.kind?])
    (by decide) with
  | result v h hswapped => exact hswapped.trans (h.symm.trans hlater)
  | overflow h => cases hlater.symm.trans h
  | invalid h => cases hlater.symm.trans h

end DynamicOps
