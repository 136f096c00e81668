import DynamicOps.Proofs.Verification.Synthesized
import Mathlib.Data.List.Perm.Basic

/-!
Tables in another order. Neither the verdict of verification nor the bodies of a verified table
depend on the order of its arms and of the cases in them: only entries that share a pattern could
tell one order from another, and verification excludes them.
-/

namespace DynamicOps

/-- Two arms have one left pattern and the same cases, in any order. -/
structure Arm.Rearranges (a b : Arm) : Prop where
  lhs : a.lhs = b.lhs
  cases : a.cases.Perm b.cases

/-- Two tables of one operator have the same arms in any order, each with the same cases in any
order.
-/
structure Table.Rearranges (t t' : Table) : Prop where
  op : t.op = t'.op
  arms : ∃ arms, t.arms.Perm arms ∧ List.Forall₂ Arm.Rearranges arms t'.arms

theorem Arm.Rearranges.symm {a b : Arm} (h : a.Rearranges b) : b.Rearranges a :=
  ⟨h.lhs.symm, h.cases.symm⟩

namespace Table.Rearranges

variable {t t' : Table}

/-- The arms may be exchanged before or after the cases in them. -/
theorem symm (h : t.Rearranges t') : t'.Rearranges t := by
  obtain ⟨arms, hperm, hcases⟩ := h.arms
  obtain ⟨arms', hcases', hperm'⟩ := List.perm_comp_forall₂ hperm hcases
  exact ⟨h.op.symm, arms', hperm'.symm, (hcases'.imp fun _ _ hab => hab.symm).flip⟩

theorem perm_lhs (h : t.Rearranges t') : (t.arms.map (·.lhs)).Perm (t'.arms.map (·.lhs)) := by
  obtain ⟨arms, hperm, hcases⟩ := h.arms
  have hlhs : arms.map (·.lhs) = t'.arms.map (·.lhs) := by
    rw [← List.forall₂_eq_eq_eq, List.forall₂_map_left_iff, List.forall₂_map_right_iff]
    exact hcases.imp fun _ _ hab => hab.lhs
  exact hlhs ▸ hperm.map _

theorem perm_cases (h : t.Rearranges t')
    : (t.arms.flatMap (·.cases)).Perm (t'.arms.flatMap (·.cases)) := by
  obtain ⟨arms, hperm, hcases⟩ := h.arms
  refine (hperm.flatMap_right _).trans (List.Perm.flatten_congr ?_)
  rw [List.forall₂_map_left_iff, List.forall₂_map_right_iff]
  exact hcases.imp fun _ _ hab => hab.cases

/-- Every arm of the second table is one of the first table, up to the order of its cases. -/
theorem exists_arm (h : t.Rearranges t') {arm' : Arm} (harm' : arm' ∈ t'.arms)
    : ∃ arm ∈ t.arms, arm.Rearranges arm' := by
  obtain ⟨arms, hperm, hcases⟩ := h.arms
  obtain ⟨i, hi, rfl⟩ := List.mem_iff_getElem.mp harm'
  have hlt : i < arms.length := hcases.length_eq ▸ hi
  exact ⟨arms[i], hperm.mem_iff.mpr (List.getElem_mem hlt), hcases.get hlt hi⟩

/-- A case for a pair stands in the first table if it stands in the second. -/
theorem exists_case (h : t.Rearranges t') {p : Pattern} {P : Case → Prop}
    (hcase : ∃ arm ∈ t'.arms, arm.lhs = p ∧ ∃ case ∈ arm.cases, P case)
    : ∃ arm ∈ t.arms, arm.lhs = p ∧ ∃ case ∈ arm.cases, P case := by
  obtain ⟨arm', harm', rfl, case, hmem, hP⟩ := hcase
  obtain ⟨arm, harm, hlhs, hcases⟩ := h.exists_arm harm'
  exact ⟨arm, harm, hlhs, case, hcases.mem_iff.mpr hmem, hP⟩

/-- A rearranged table is verified if the table is, since what is asked of a table does not speak of
order.
-/
theorem verified (h : t.Rearranges t') (hverified : t.Verified) : t'.Verified := by
  refine ⟨⟨h.perm_lhs.nodup_iff.mp hverified.arms, ?_, ?_⟩, ?_⟩
  · intro arm' harm'
    obtain ⟨arm, harm, -, hcases⟩ := h.exists_arm harm'
    exact (hcases.map _).nodup_iff.mp (hverified.cases arm harm)
  · intro arm' harm' case hcase
    obtain ⟨arm, harm, hlhs, hcases⟩ := h.exists_arm harm'
    rw [← h.op, ← hlhs]
    exact hverified.accepted arm harm case (hcases.mem_iff.mpr hcase)
  · intro p q hrequired
    rw [← h.op] at hrequired
    exact h.symm.exists_case (hverified.required p q hrequired)

end Table.Rearranges

/-- A table passes verification in any order or in none, has as many cases in any order, and has the
same bodies in any order if it passes.
-/
theorem order_insignificant {t t' : Table} (h : t.Rearranges t')
    : (verify t = .ok () ↔ verify t' = .ok ())
      ∧ t'.caseCount = t.caseCount
      ∧ (verify t = .ok () → ∀ p q, t'.get? p q = t.get? p q) := by
  rw [verify_eq_ok_iff, verify_eq_ok_iff]
  refine ⟨⟨h.verified, h.symm.verified⟩, h.perm_cases.length_eq.symm, ?_⟩
  intro hverified p q
  ext body
  rw [(h.verified hverified).get?_eq_some_iff, hverified.get?_eq_some_iff]
  exact ⟨h.exists_case, h.symm.exists_case⟩

/-- The table with its arms, and the cases in them, in the opposite order. -/
def Table.reversed (t : Table) : Table :=
  ⟨t.op, t.arms.reverse.map fun arm => ⟨arm.lhs, arm.cases.reverse⟩⟩

theorem Table.rearranges_reversed (t : Table) : t.Rearranges t.reversed := by
  refine ⟨rfl, t.arms.reverse, (List.reverse_perm _).symm, ?_⟩
  rw [reversed, List.forall₂_map_right_iff, List.forall₂_same]
  exact fun arm _ => ⟨rfl, (List.reverse_perm _).symm⟩

/-- The table of addition passes in the opposite order too, and still joins texts. -/
theorem order_insignificant_reversed
    : (synthesize (.compute .add)).Rearranges (synthesize (.compute .add)).reversed
      ∧ verify (synthesize (.compute .add)).reversed = .ok ()
      ∧ (synthesize (.compute .add)).reversed.get? (.scalar .text) (.scalar .text)
        = some .concat := by
  have hrearranges := (synthesize (.compute .add)).rearranges_reversed
  have hverify : verify (synthesize (.compute .add)) = .ok () :=
    verify_eq_ok_iff.mpr (verified_synthesize _)
  obtain ⟨hiff, -, hget⟩ := order_insignificant hrearranges
  refine ⟨hrearranges, hiff.mp hverify, ?_⟩
  rw [hget hverify]
  decide +kernel

end DynamicOps
