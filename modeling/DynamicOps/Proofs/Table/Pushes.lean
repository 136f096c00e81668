import DynamicOps.Proofs.Table.Grouping
import DynamicOps.Proofs.Verification.Decision

/-!
Tables that were built by pushes alone. A push adds one case, so that a table holds as many as there
were pushes, grouped by left pattern. Verification finds no left pattern twice in such a table, and
a pair twice only where it was pushed twice.
-/

namespace DynamicOps

open Synthesis

/-- A pushed case is one more, wherever it goes. By induction over the arms. -/
theorem Table.caseCount_push (t : Table) (p q : Pattern) (body : Body)
    : (t.push p q body).caseCount = t.caseCount + 1 := by
  obtain ⟨op, arms⟩ := t
  simp only [push, caseCount]
  induction arms with
  | nil => rfl
  | cons arm arms ih =>
      rw [insertCase]
      split
      next =>
        simp only [List.flatMap_cons, List.length_append, List.length_singleton]
        omega
      next =>
        simp only [List.flatMap_cons, List.length_append, ih]
        omega

/-- A table has a case for each of its cells, by induction over the cells from the last one. -/
theorem Table.caseCount_ofCells (op : Operator) (cells : List Cell)
    : (Table.ofCells op cells).caseCount = cells.length := by
  induction cells using List.reverseRecOn with
  | nil => rfl
  | append_singleton cells c ih =>
      rw [ofCells, List.foldl_append, ← ofCells, List.length_append, ← ih]
      exact caseCount_push _ c.lhs c.rhs c.body

/-- A table holds pushed cells in the order of the pushes: an arm for each left pattern from its
first push on, with the cases that were pushed for it, of which the first one for a pair counts.
-/
structure Table.Holds (t : Table) (cells : List Cell) : Prop where
  arms : FirstOccurrencesOf (cells.map (·.lhs)) (t.arms.map (·.lhs))
  distinct : (t.arms.map (·.lhs)).Nodup
  nonempty : ∀ arm ∈ t.arms, arm.cases ≠ []
  cases : ∀ arm ∈ t.arms, arm.cases = casesFor cells arm.lhs
  caseCount : t.caseCount = cells.length
  bodies : ∀ p q, t.get? p q = bodyFor? cells p q

theorem Table.holds_ofCells (op : Operator) (cells : List Cell)
    : (Table.ofCells op cells).Holds cells := by
  have hlhs : (Table.ofCells op cells).arms.map (·.lhs) = firstOccurrences (cells.map (·.lhs)) := by
    simp [arms_ofCells, Function.comp_def]
  exact {
    arms := hlhs ▸ firstOccurrencesOf_firstOccurrences _
    distinct := hlhs ▸ nodup_firstOccurrences _
    nonempty := fun _ => cases_ne_nil_of_mem_arms
    cases := by
      intro arm harm
      rw [arms_ofCells] at harm
      obtain ⟨p, _, rfl⟩ := List.mem_map.mp harm
      rfl
    caseCount := caseCount_ofCells op cells
    bodies := get?_ofCells op cells
  }

/-- Among the cases of a left pattern a right one stands as often as the pair does among the cells.
-/
theorem Synthesis.count_casesFor (cells : List Cell) (p q : Pattern)
    : ((casesFor cells p).map (·.rhs)).count q = (cells.map Cell.pair).count (p, q) := by
  simp only [casesFor, List.map_map, List.count, List.countP_map, List.countP_filter]
  refine List.countP_congr fun c _ => ?_
  simp [Cell.pair, and_comm]

/-- Unless a pair is missing, verification fails on the arms. -/
theorem checkArms_eq_error_of_verify {t : Table} {e : TableError} (h : verify t = .error e)
    (hmissing : ∀ op p q, e ≠ .missingCase op p q)
    : checkArms t.op t.arms = .error e := by
  cases harms : checkArms t.op t.arms with
  | error e' =>
      rw [verify, harms] at h
      cases h
      rfl
  | ok _ =>
      rw [verify_of_consistent (checkArms_eq_ok_iff.mp harms)] at h
      split at h
      next p q _ =>
        cases h
        exact absurd rfl (hmissing t.op p q)
      next => cases h

/-- A table built by pushes holds what was pushed, whatever the pushes were. Verification never
reports one of its left patterns as repeated, and a pair only if it was pushed more than once.
-/
theorem pushed_tables_grouped (op : Operator) (cells : List Cell)
    : (Table.ofCells op cells).Holds cells
      ∧ (∀ o p, verify (Table.ofCells op cells) ≠ .error (.duplicateArm o p))
      ∧ ∀ o p q, verify (Table.ofCells op cells) = .error (.duplicateCase o p q) →
          2 ≤ (cells.map Cell.pair).count (p, q) := by
  have hholds : (Table.ofCells op cells).Holds cells := Table.holds_ofCells op cells
  refine ⟨hholds, ?_, ?_⟩
  · intro o p h
    have harms := checkArms_eq_error_of_verify h (by simp)
    obtain ⟨-, htwice⟩ := truthful_of_checkArms harms
    have honce := List.nodup_iff_count_le_one.mp hholds.distinct p
    omega
  · intro o p q h
    have harms := checkArms_eq_error_of_verify h (by simp)
    obtain ⟨-, arm, harm, rfl, htwice⟩ := truthful_of_checkArms harms
    -- The cases of the arm are the cells of its left pattern, so the pair stands as often there.
    rwa [hholds.cases arm harm, count_casesFor] at htwice

/-- A pair that was pushed again, with another body and after a new arm, is reported as repeated. -/
theorem pushed_tables_grouped_again
    : verify (Table.ofCells .equal
          [⟨.scalar .text, .scalar .text, .native⟩, ⟨.scalar .bool, .scalar .bool, .native⟩,
            ⟨.scalar .text, .scalar .text, .concat⟩])
        = .error (.duplicateCase .equal (.scalar .text) (.scalar .text))
      ∧ 2 ≤ (List.map Cell.pair
          [⟨.scalar .text, .scalar .text, .native⟩, ⟨.scalar .bool, .scalar .bool, .native⟩,
            ⟨.scalar .text, .scalar .text, .concat⟩]).count (.scalar .text, .scalar .text) :=
  ⟨rfl, (pushed_tables_grouped .equal _).2.2 _ _ _ rfl⟩

end DynamicOps
