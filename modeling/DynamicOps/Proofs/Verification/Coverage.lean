import DynamicOps.Proofs.Verification.Synthesized

/-!
Which cases of an operator verification guarantees. It requires all of equality's cases, but of the
other operators only those that were paired by promotion, so that a table may have lost its cases
for text, instants, and durations and still pass.
-/

namespace DynamicOps

open Synthesis

theorem isSome_get?_synthesize_iff {op : Operator} {p q : Pattern} (hop : op ≠ .equal)
    : ((synthesize op).get? p q).isSome = true
      ↔ (p, q) ∈ (pairwise op).map Cell.pair ∨ (p, q) ∈ (distinguished op).map Cell.pair := by
  rw [synthesize, Table.isSome_get?_ofCells, cells_of_ne_equal hop, List.map_append,
    List.mem_append]

theorem isSome_get?_of_required {t : Table} {p q : Pattern} (h : verify t = .ok ())
    (hpq : (p, q) ∈ requiredPairs t.op)
    : (t.get? p q).isSome = true := by
  have hverified := verify_eq_ok_iff.mp h
  exact Table.isSome_get?_of_contains hverified.arms (hverified.required p q hpq)

/-- Verification guarantees a case exactly when the case is pairwise: the table of the pairwise
cells alone passes.
-/
theorem guaranteed_iff_mem_pairwise {op : Operator} {p q : Pattern} (hop : op ≠ .equal)
    : (∀ t : Table, t.op = op → verify t = .ok () → (t.get? p q).isSome = true)
      ↔ (p, q) ∈ (pairwise op).map Cell.pair := by
  constructor
  · intro h
    have hverify : verify (Table.ofCells op (pairwise op)) = .ok () :=
      verify_eq_ok_iff.mpr (verified_pairwise hop)
    exact Table.isSome_get?_ofCells.mp (h _ (Table.op_ofCells op _) hverify)
  · rintro hpq t rfl ht
    exact isSome_get?_of_required ht ((mem_requiredPairs_iff hop).mpr hpq)

/-- A case of an operator is pairwise exactly when the operator is multiplication, which has no
other cases, or both kinds are numbers.
-/
theorem mem_pairwise_iff_of_get? {op : Operator} {p q : Pattern} (hop : op ≠ .equal)
    (h : ((synthesize op).get? p q).isSome = true)
    : (p, q) ∈ (pairwise op).map Cell.pair
      ↔ op = .compute .multiply
        ∨ ∃ a b : Kind, p = .scalar a ∧ q = .scalar b
            ∧ a.isNumeric = true ∧ b.isNumeric = true := by
  constructor
  · intro hpq
    obtain ⟨c, hc, hpair⟩ := List.mem_map.mp hpq
    obtain ⟨a, ha, b, hb, domain, _, rfl⟩ := mem_pairwise_iff.mp hc
    by_cases hmultiply : op = .compute .multiply
    · exact .inl hmultiply
    · refine .inr ⟨a, b, (congrArg Prod.fst hpair).symm, (congrArg Prod.snd hpair).symm, ?_, ?_⟩
      · exact isNumeric_of_mem_pairwiseKinds ha hmultiply
      · exact isNumeric_of_mem_pairwiseKinds hb hmultiply
  · intro hcase
    rcases (isSome_get?_synthesize_iff hop).mp h with hpairwise | hdistinguished
    · exact hpairwise
    · obtain ⟨c, hc, hpair⟩ := List.mem_map.mp hdistinguished
      obtain ⟨hmultiply, k, hk, hnumeric⟩ := lhs_of_mem_distinguished hc
      rcases hcase with hop | ⟨a, _, rfl, _, ha, _⟩
      · exact absurd hop hmultiply
      · obtain rfl : k = a := Pattern.scalar.inj (hk.symm.trans (congrArg Prod.fst hpair))
        rw [ha] at hnumeric
        cases hnumeric

/-- Verification guarantees a case of an operator's table exactly when the operator is equality or
multiplication, or the case is for two numbers.
-/
theorem verified_coverage_iff {op : Operator} {p q : Pattern}
    (h : ((synthesize op).get? p q).isSome = true)
    : (∀ t : Table, t.op = op → verify t = .ok () → (t.get? p q).isSome = true)
      ↔ op = .equal ∨ op = .compute .multiply
        ∨ ∃ a b : Kind, p = .scalar a ∧ q = .scalar b
            ∧ a.isNumeric = true ∧ b.isNumeric = true := by
  by_cases hop : op = .equal
  · subst hop
    refine iff_of_true (fun t ht hverify => ?_) (.inl rfl)
    rw [get?_synthesize_equal] at h
    exact isSome_get?_of_required hverify (ht ▸ mem_requiredPairs_equal_iff.mpr h)
  · rw [guaranteed_iff_mem_pairwise hop, mem_pairwise_iff_of_get? hop h]
    simp [hop]

/-- Verification guarantees the sum of an address and a word. -/
theorem verified_coverage_iff_sum
    : ((synthesize (.compute .add)).get? (.scalar (.int (.unsigned .size))) (.scalar .i64)).isSome
        = true
      ∧ ∀ t : Table, t.op = .compute .add → verify t = .ok () →
          (t.get? (.scalar (.int (.unsigned .size))) (.scalar .i64)).isSome = true := by
  have hsum : ((synthesize (.compute .add)).get? (.scalar (.int (.unsigned .size)))
      (.scalar .i64)).isSome = true := by
    decide +kernel
  exact ⟨hsum, (verified_coverage_iff hsum).mpr (.inr (.inr ⟨_, _, rfl, rfl, rfl, rfl⟩))⟩

/-- The table of addition without its arm for text passes although text has a sum. -/
theorem verified_without_concatenation
    : verify ⟨.compute .add, (synthesize (.compute .add)).arms.eraseIdx 12⟩ = .ok ()
      ∧ (synthesize (.compute .add)).get? (.scalar .text) (.scalar .text) = some .concat
      ∧ Table.get? ⟨.compute .add, (synthesize (.compute .add)).arms.eraseIdx 12⟩
          (.scalar .text) (.scalar .text)
        = none := by
  decide +kernel

end DynamicOps
