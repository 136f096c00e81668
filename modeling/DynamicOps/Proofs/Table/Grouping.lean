import DynamicOps.Proofs.Table.Lookup
import DynamicOps.Table.Module
import Mathlib.Data.List.Induction
import Mathlib.Data.List.Sort

/-!
The shape of tables that were built cell by cell: one arm for each left pattern in the order of
first use, with the cases that were pushed for it in their order.
-/

namespace DynamicOps

section FirstOccurrences

variable {α : Type} [DecidableEq α] {xs ys zs : List α}

@[simp]
theorem mem_firstOccurrences {x : α} {xs : List α} : x ∈ firstOccurrences xs ↔ x ∈ xs := by
  induction xs with
  | nil => simp [firstOccurrences]
  | cons y xs ih =>
      by_cases h : x = y
      · simp [firstOccurrences, h]
      · simp [firstOccurrences, h, ih]

theorem nodup_firstOccurrences (xs : List α) : (firstOccurrences xs).Nodup := by
  induction xs with
  | nil => exact List.nodup_nil
  | cons x xs ih =>
      rw [firstOccurrences, List.nodup_cons]
      exact ⟨by simp, ih.filter _⟩

/-- A further element is a first occurrence unless it occurred, by induction over the elements. -/
theorem firstOccurrences_append_singleton (xs : List α) (x : α)
    : firstOccurrences (xs ++ [x])
      = if x ∈ xs then firstOccurrences xs else firstOccurrences xs ++ [x] := by
  induction xs with
  | nil => rfl
  | cons y xs ih =>
      rw [List.cons_append, firstOccurrences, ih]
      by_cases hy : x = y
      · subst hy
        by_cases hx : x ∈ xs <;> simp [firstOccurrences, hx]
      · by_cases hx : x ∈ xs <;> simp [firstOccurrences, hy, hx]

/-- A list holds what occurs in another one, ordered by where it first occurs there. -/
structure FirstOccurrencesOf (xs ys : List α) : Prop where
  mem_iff (x : α) : x ∈ ys ↔ x ∈ xs
  ordered : ys.Pairwise fun x y => xs.idxOf x < xs.idxOf y

theorem FirstOccurrencesOf.nodup (h : FirstOccurrencesOf xs ys) : ys.Nodup := by
  refine h.ordered.imp ?_
  rintro x _ hlt rfl
  exact Nat.lt_irrefl _ hlt

/-- No two lists have the same members in the same order of first occurrence. -/
theorem FirstOccurrencesOf.eq (hys : FirstOccurrencesOf xs ys) (hzs : FirstOccurrencesOf xs zs)
    : ys = zs := by
  have hperm : ys.Perm zs :=
    (List.perm_ext_iff_of_nodup hys.nodup hzs.nodup).mpr fun x =>
      (hys.mem_iff x).trans (hzs.mem_iff x).symm
  refine hperm.eq_of_pairwise (fun x y _ _ hxy hyx => ?_) hys.ordered hzs.ordered
  exact absurd hxy (Nat.lt_asymm hyx)

/-- First occurrences are in their own order, by induction over the elements. -/
theorem firstOccurrencesOf_firstOccurrences (xs : List α)
    : FirstOccurrencesOf xs (firstOccurrences xs) := by
  refine ⟨fun x => mem_firstOccurrences, ?_⟩
  induction xs with
  | nil => exact .nil
  | cons x xs ih =>
      have hindex {y : α} (hy : y ∈ (firstOccurrences xs).filter (· ≠ x))
          : (x :: xs).idxOf y = xs.idxOf y + 1 := by
        have hne : y ≠ x := by simpa using (List.mem_filter.mp hy).2
        exact List.idxOf_cons_ne _ hne.symm
      refine List.pairwise_cons.mpr ⟨fun y hy => ?_, ?_⟩
      · rw [List.idxOf_cons_self, hindex hy]
        exact Nat.succ_pos _
      · refine (ih.filter _).imp_of_mem fun hy hz hlt => ?_
        rw [hindex hy, hindex hz]
        exact Nat.succ_lt_succ hlt

/-- More elements only add first occurrences at the end, by induction over them. -/
theorem firstOccurrences_prefix (xs more : List α)
    : firstOccurrences xs <+: firstOccurrences (xs ++ more) := by
  induction more generalizing xs with
  | nil => exact ⟨[], by simp⟩
  | cons x more ih =>
      have hstep : firstOccurrences xs <+: firstOccurrences (xs ++ [x]) := by
        rw [firstOccurrences_append_singleton]
        split
        next => exact List.prefix_rfl
        next => exact List.prefix_append _ _
      rw [List.append_cons]
      exact hstep.trans (ih (xs ++ [x]))

end FirstOccurrences

/-- The pair of patterns that a cell is for. -/
def Cell.pair (c : Cell) : Pattern × Pattern :=
  (c.lhs, c.rhs)

/-- The cases that cells give to the arm of a left pattern. -/
def Synthesis.casesFor (cells : List Cell) (p : Pattern) : List Case :=
  (cells.filter (·.lhs = p)).map fun c => ⟨c.rhs, c.body⟩

open Synthesis

/-- A case of a left pattern without an arm goes into a new last arm, by induction over the arms. -/
theorem insertCase_of_not_mem {arms : List Arm} {p : Pattern} (case : Case)
    (h : p ∉ arms.map (·.lhs))
    : insertCase p case arms = arms ++ [⟨p, [case]⟩] := by
  induction arms with
  | nil => rfl
  | cons arm arms ih =>
      rw [List.map_cons, List.mem_cons, not_or] at h
      rw [insertCase, if_neg (Ne.symm h.1), ih h.2, List.cons_append]

/-- A case goes to the end of the first arm of its left pattern, by induction over the arms before
that one.
-/
theorem insertCase_append_cons {xs ys : List Arm} {arm : Arm} (case : Case)
    (h : arm.lhs ∉ xs.map (·.lhs))
    : insertCase arm.lhs case (xs ++ arm :: ys)
      = xs ++ ⟨arm.lhs, arm.cases ++ [case]⟩ :: ys := by
  induction xs with
  | nil => rw [List.nil_append, insertCase, if_pos rfl, List.nil_append]
  | cons x xs ih =>
      rw [List.map_cons, List.mem_cons, not_or] at h
      rw [List.cons_append, insertCase, if_neg (Ne.symm h.1), ih h.2, List.cons_append]

/-- A case goes to the end of the arm of its left pattern, or into a new last arm, by induction
over the left patterns of the arms.
-/
theorem insertCase_map {ps : List Pattern} (hps : ps.Nodup) (cases : Pattern → List Case)
    (p : Pattern) (case : Case)
    : insertCase p case (ps.map fun q => ⟨q, cases q⟩)
      = if p ∈ ps then ps.map fun q => ⟨q, cases q ++ if p = q then [case] else []⟩
        else (ps.map fun q => ⟨q, cases q⟩) ++ [⟨p, [case]⟩] := by
  induction ps with
  | nil => rfl
  | cons q ps ih =>
      obtain ⟨hq, hps⟩ := List.nodup_cons.mp hps
      rw [List.map_cons, insertCase]
      by_cases hqp : q = p
      · subst hqp
        -- The other arms have other left patterns and stay as they are.
        have htail : (ps.map fun r => (⟨r, cases r ++ if q = r then [case] else []⟩ : Arm))
            = ps.map fun r => ⟨r, cases r⟩ := by
          refine List.map_congr_left fun r hr => ?_
          have hne : q ≠ r := fun h => hq (h ▸ hr)
          simp [hne]
        simp [htail]
      · rw [if_neg hqp, ih hps]
        by_cases hp : p ∈ ps <;> simp [hp, Ne.symm hqp]

/-- A table built from cells has an arm for each left pattern in the order of first use, with the
cases of its cells, by induction over the cells from the last one.
-/
theorem Table.arms_ofCells (op : Operator) (cells : List Cell)
    : (Table.ofCells op cells).arms
      = (firstOccurrences (cells.map (·.lhs))).map fun p => ⟨p, casesFor cells p⟩ := by
  induction cells using List.reverseRecOn with
  | nil => rfl
  | append_singleton cells c ih =>
      have hpush : (Table.ofCells op (cells ++ [c])).arms
          = insertCase c.lhs ⟨c.rhs, c.body⟩ (Table.ofCells op cells).arms := by
        simp [Table.ofCells, Table.push]
      have hcases (q : Pattern) : casesFor (cells ++ [c]) q
          = casesFor cells q ++ if c.lhs = q then [⟨c.rhs, c.body⟩] else [] := by
        by_cases h : c.lhs = q <;> simp [casesFor, h]
      rw [hpush, ih, insertCase_map (nodup_firstOccurrences _), List.map_append, List.map_singleton,
        firstOccurrences_append_singleton]
      simp only [hcases, mem_firstOccurrences]
      by_cases h : c.lhs ∈ cells.map (·.lhs)
      · simp [h]
      · -- No earlier cell has the new left pattern, so only the new arm gets the case.
        have hnone : casesFor cells c.lhs = [] := by
          simp only [casesFor, List.map_eq_nil_iff, List.filter_eq_nil_iff, decide_eq_true_eq]
          exact fun d hd hdc => h (List.mem_map.mpr ⟨d, hd, hdc⟩)
        have hold : ((firstOccurrences (cells.map (·.lhs))).map fun q =>
              (⟨q, casesFor cells q ++ if c.lhs = q then [⟨c.rhs, c.body⟩] else []⟩ : Arm))
            = (firstOccurrences (cells.map (·.lhs))).map fun q => ⟨q, casesFor cells q⟩ := by
          refine List.map_congr_left fun q hq => ?_
          have hne : c.lhs ≠ q := fun heq => h (heq ▸ mem_firstOccurrences.mp hq)
          simp [hne]
        rw [if_neg h, if_neg h, List.map_append, hold]
        simp [hnone]

theorem Table.exists_cell_of_mem_arms {op : Operator} {cells : List Cell} {arm : Arm} {case : Case}
    (harm : arm ∈ (Table.ofCells op cells).arms) (hcase : case ∈ arm.cases)
    : ⟨arm.lhs, case.rhs, case.body⟩ ∈ cells := by
  rw [arms_ofCells] at harm
  obtain ⟨p, _, rfl⟩ := List.mem_map.mp harm
  obtain ⟨c, hc, rfl⟩ := List.mem_map.mp hcase
  obtain ⟨hmem, hlhs⟩ := List.mem_filter.mp hc
  obtain rfl : c.lhs = p := by simpa using hlhs
  exact hmem

/-- No arm is empty, since a cell opened it. -/
theorem Table.cases_ne_nil_of_mem_arms {op : Operator} {cells : List Cell} {arm : Arm}
    (harm : arm ∈ (Table.ofCells op cells).arms)
    : arm.cases ≠ [] := by
  rw [arms_ofCells] at harm
  obtain ⟨p, hp, rfl⟩ := List.mem_map.mp harm
  obtain ⟨c, hc, rfl⟩ := List.mem_map.mp (mem_firstOccurrences.mp hp)
  exact List.ne_nil_of_mem
    (List.mem_map_of_mem (List.mem_filter.mpr ⟨hc, decide_eq_true rfl⟩))

theorem Table.isSome_get?_ofCells {op : Operator} {cells : List Cell} {p q : Pattern}
    : ((Table.ofCells op cells).get? p q).isSome = true ↔ (p, q) ∈ cells.map Cell.pair := by
  rw [get?_ofCells, bodyFor?, Option.isSome_map, List.find?_isSome]
  simp [Cell.covers, Cell.pair]

end DynamicOps
