import DynamicOps.Proofs.Equality.Cases
import DynamicOps.Proofs.Registry.Promotion
import DynamicOps.Proofs.Table.Grouping
import DynamicOps.Proofs.Table.Selection
import DynamicOps.Proofs.Verification.Decision

/-!
Synthesized tables pass verification. Their cells are accepted by their operator, no two of them
are for one pair, and the pairs that verification requires are those of equality's whole table and
of the pairwise part of every other operator's.
-/

namespace DynamicOps

namespace Synthesis

-----------------------------------------------------------------------------------------
-- Every cell is accepted
-----------------------------------------------------------------------------------------

/-- A pairwise cell joins two of the operator's kinds in their domain, or natively if a comparison
meets one kind twice.
-/
theorem mem_pairwise_iff {op : Operator} {c : Cell}
    : c ∈ pairwise op
      ↔ ∃ a ∈ op.pairwiseKinds, ∃ b ∈ op.pairwiseKinds, ∃ domain,
          promote op a b = some domain
          ∧ scalars a b (if op.isComparison && a = b then .native else .promote domain) = c := by
  simp only [pairwise, List.mem_flatMap, List.mem_filterMap, Option.map_eq_some_iff]

theorem accepts_of_mem_sameKind {k : Kind} {c : Cell} (h : c ∈ sameKind k)
    : Operator.equal.Accepts c.lhs c.rhs c.body := by
  simp only [sameKind, List.mem_cons, List.not_mem_nil, or_false] at h
  rcases h with rfl | rfl
  · exact ⟨.equal k, trivial⟩
  · exact ⟨.reference k, trivial⟩

theorem accepts_of_mem_otherKinds {k : Kind} {c : Cell} (h : c ∈ otherKinds k)
    : Operator.equal.Accepts c.lhs c.rhs c.body := by
  obtain ⟨b, _, hb⟩ := List.mem_filterMap.mp h
  split at hb
  · cases hb
  · obtain ⟨domain, hpromote, rfl⟩ := Option.map_eq_some_iff.mp hb
    exact ⟨.promoted domain hpromote, hpromote⟩

theorem accepts_of_mem_numericEquality {c : Cell} (h : c ∈ numericEquality)
    : Operator.equal.Accepts c.lhs c.rhs c.body := by
  obtain ⟨k, _, hc⟩ := mem_numericEquality.mp h
  rcases List.mem_append.mp hc with hc | hc
  · exact accepts_of_mem_sameKind hc
  · exact accepts_of_mem_otherKinds hc

theorem accepts_of_mem_pairwise {op : Operator} {c : Cell} (h : c ∈ pairwise op)
    : op.Accepts c.lhs c.rhs c.body := by
  obtain ⟨a, _, b, _, domain, hpromote, rfl⟩ := mem_pairwise_iff.mp h
  cases hnative : op.isComparison && decide (a = b) with
  | false => exact ⟨.promoted domain hpromote, hpromote⟩
  | true =>
      obtain ⟨hop, rfl⟩ : op.isComparison = true ∧ a = b := by simpa using hnative
      -- Truth values are not promoted, so a native ordering is never one of them.
      have hbool : a ≠ .bool := by
        rintro rfl
        exact absurd (domain_of_promote hpromote).1 (by decide)
      cases op with
      | equal => exact ⟨.equal a, trivial⟩
      | order relation => exact ⟨.order relation hbool, trivial⟩
      | compute _ => cases hop

theorem accepts_of_mem_distinguished {op : Operator} {c : Cell} (h : c ∈ distinguished op)
    : op.Accepts c.lhs c.rhs c.body := by
  cases op with
  | equal =>
      obtain ⟨k, _, hc⟩ := mem_distinguished_equal.mp h
      exact accepts_of_mem_sameKind hc
  | order relation =>
      obtain ⟨k, hk, rfl⟩ := List.mem_map.mp h
      have hbool : k ≠ .bool := by simpa using (List.mem_filter.mp hk).2
      exact ⟨.order relation hbool, trivial⟩
  | compute o =>
      cases o <;> simp only [distinguished, List.mem_cons, List.not_mem_nil, or_false] at h
      case add =>
        rcases h with rfl | rfl | rfl | rfl
        · exact ⟨.concat, trivial⟩
        · exact ⟨.shift (by simp), trivial⟩
        · exact ⟨.checked (by simp), trivial⟩
        · exact ⟨.shiftBy, trivial⟩
      case subtract =>
        rcases h with rfl | rfl | rfl
        · exact ⟨.elapsed, trivial⟩
        · exact ⟨.shift (by simp), trivial⟩
        · exact ⟨.checked (by simp), trivial⟩

theorem accepts_of_mem_arrays {c : Cell} (h : c ∈ arrays)
    : Operator.equal.Accepts c.lhs c.rhs c.body := by
  rcases mem_arrays.mp h with h | ⟨k, h⟩
  · obtain ⟨k, _, rfl⟩ := List.mem_map.mp h
    exact ⟨.elementwise k, trivial⟩
  · simp only [homogeneous, List.mem_cons, List.not_mem_nil, or_false] at h
    rcases h with rfl | rfl
    · exact ⟨.swapped k, trivial⟩
    · exact ⟨.arrays k, trivial⟩

theorem cells_of_ne_equal {op : Operator} (h : op ≠ .equal)
    : cells op = pairwise op ++ distinguished op := by
  cases op with
  | equal => exact absurd rfl h
  | order _ | compute _ => rfl

/-- An operator accepts the cells of its own table. -/
theorem accepts_of_mem_cells {op : Operator} {c : Cell} (h : c ∈ cells op)
    : op.Accepts c.lhs c.rhs c.body := by
  by_cases hop : op = .equal
  · subst hop
    rcases List.mem_append.mp h with h | h
    · rcases List.mem_append.mp h with h | h
      · exact accepts_of_mem_numericEquality h
      · exact accepts_of_mem_distinguished h
    · exact accepts_of_mem_arrays h
  · rw [cells_of_ne_equal hop] at h
    rcases List.mem_append.mp h with h | h
    · exact accepts_of_mem_pairwise h
    · exact accepts_of_mem_distinguished h

-----------------------------------------------------------------------------------------
-- No two cells are for one pair
-----------------------------------------------------------------------------------------

/-- Blocks of one left pattern each do not share a pair. -/
theorem nodup_pairs_flatMap {kinds : List Kind} {block : Kind → List Cell}
    (shape : Kind → Pattern) (hshape : ∀ {a b}, shape a = shape b → a = b)
    (hkinds : kinds.Nodup) (hlhs : ∀ a, ∀ c ∈ block a, c.lhs = shape a)
    (hblock : ∀ a ∈ kinds, ((block a).map Cell.pair).Nodup)
    : ((kinds.flatMap block).map Cell.pair).Nodup := by
  rw [List.map_flatMap, List.nodup_flatMap]
  refine ⟨hblock, hkinds.imp ?_⟩
  intro a b hne pq ha hb
  obtain ⟨c, hc, rfl⟩ := List.mem_map.mp ha
  obtain ⟨d, hd, hpair⟩ := List.mem_map.mp hb
  have hlhs : shape a = shape b := by
    rw [← hlhs a c hc, ← hlhs b d hd]
    exact (congrArg Prod.fst hpair).symm
  exact hne (hshape hlhs)

/-- Cells of one right pattern each do not share a pair. -/
theorem nodup_pairs_filterMap {kinds : List Kind} {cell : Kind → Option Cell}
    (shape : Kind → Pattern) (hshape : ∀ {a b}, shape a = shape b → a = b)
    (hkinds : kinds.Nodup) (hrhs : ∀ b c, cell b = some c → c.rhs = shape b)
    : ((kinds.filterMap cell).map Cell.pair).Nodup := by
  rw [List.map_filterMap]
  apply hkinds.filterMap
  intro a b pq ha hb
  obtain ⟨c, hc, rfl⟩ := Option.map_eq_some_iff.mp ha
  obtain ⟨d, hd, hpair⟩ := Option.map_eq_some_iff.mp hb
  apply hshape
  rw [← hrhs a c hc, ← hrhs b d hd]
  exact (congrArg Prod.snd hpair).symm

theorem disjoint_pairs_of_lhs {xs ys : List Cell} (h : ∀ c ∈ xs, ∀ d ∈ ys, c.lhs ≠ d.lhs)
    : (xs.map Cell.pair).Disjoint (ys.map Cell.pair) := by
  intro pq hx hy
  obtain ⟨c, hc, rfl⟩ := List.mem_map.mp hx
  obtain ⟨d, hd, hpair⟩ := List.mem_map.mp hy
  exact h c hc d hd (congrArg Prod.fst hpair).symm

theorem nodup_pairs_append {xs ys : List Cell} (hx : (xs.map Cell.pair).Nodup)
    (hy : (ys.map Cell.pair).Nodup) (h : (xs.map Cell.pair).Disjoint (ys.map Cell.pair))
    : ((xs ++ ys).map Cell.pair).Nodup := by
  rw [List.map_append, List.nodup_append']
  exact ⟨hx, hy, h⟩

/-- The cells of an operator beside its pairwise ones have a kind on their left that is no number,
and multiplication has none of them.
-/
theorem lhs_of_mem_distinguished {op : Operator} {c : Cell} (h : c ∈ distinguished op)
    : op ≠ .compute .multiply ∧ ∃ k : Kind, c.lhs = .scalar k ∧ k.isNumeric = false := by
  cases op with
  | equal =>
      obtain ⟨k, hk, hc⟩ := mem_distinguished_equal.mp h
      exact ⟨by simp, k, lhs_of_mem_sameKind hc, hk⟩
  | order relation =>
      obtain ⟨k, hk, rfl⟩ := List.mem_map.mp h
      exact ⟨by simp, k, rfl, (Registry.mem_distinguished k).mp (List.mem_filter.mp hk).1⟩
  | compute o =>
      cases o <;> simp only [distinguished, List.mem_cons, List.not_mem_nil, or_false] at h
      case add => rcases h with rfl | rfl | rfl | rfl <;> exact ⟨by simp, _, rfl, rfl⟩
      case subtract => rcases h with rfl | rfl | rfl <;> exact ⟨by simp, _, rfl, rfl⟩

/-- Cells with numbers on their left do not share a pair with the distinguished ones. -/
theorem disjoint_pairs_distinguished {op : Operator} {xs : List Cell}
    (h : op ≠ .compute .multiply → ∀ c ∈ xs, ∃ k : Kind, c.lhs = .scalar k ∧ k.isNumeric = true)
    : (xs.map Cell.pair).Disjoint ((distinguished op).map Cell.pair) := by
  apply disjoint_pairs_of_lhs
  intro c hc d hd hlhs
  obtain ⟨hop, l, hdl, hl⟩ := lhs_of_mem_distinguished hd
  obtain ⟨k, hck, hk⟩ := h hop c hc
  obtain rfl : k = l := Pattern.scalar.inj (hck.symm.trans (hlhs.trans hdl))
  rw [hk] at hl
  cases hl

theorem nodup_pairwiseKinds (op : Operator) : op.pairwiseKinds.Nodup := by
  have hnumeric : Registry.numeric.Nodup := by decide
  have hduration : Registry.numericWithDuration.Nodup := by decide
  unfold Operator.pairwiseKinds
  split
  · exact hduration
  · exact hnumeric

/-- Only multiplication pairs kinds that are no numbers. -/
theorem isNumeric_of_mem_pairwiseKinds {op : Operator} {k : Kind} (h : k ∈ op.pairwiseKinds)
    (hop : op ≠ .compute .multiply)
    : k.isNumeric = true := by
  unfold Operator.pairwiseKinds at h
  split at h
  · exact absurd rfl hop
  · exact (Registry.mem_numeric k).mp h

theorem nodup_pairs_pairwise (op : Operator) : ((pairwise op).map Cell.pair).Nodup := by
  have hkinds := nodup_pairwiseKinds op
  apply nodup_pairs_flatMap Pattern.scalar Pattern.scalar.inj hkinds
  · intro a c hc
    obtain ⟨b, _, hb⟩ := List.mem_filterMap.mp hc
    obtain ⟨domain, _, rfl⟩ := Option.map_eq_some_iff.mp hb
    rfl
  · intro a _
    apply nodup_pairs_filterMap Pattern.scalar Pattern.scalar.inj hkinds
    intro b c hc
    obtain ⟨domain, _, rfl⟩ := Option.map_eq_some_iff.mp hc
    rfl

theorem nodup_pairs_distinguished (op : Operator)
    : ((distinguished op).map Cell.pair).Nodup := by
  rcases op with _ | (_ | _ | _ | _) | (_ | _ | _ | _ | _) <;> decide

theorem nodup_pairs_otherKinds (k : Kind) : ((otherKinds k).map Cell.pair).Nodup := by
  apply nodup_pairs_filterMap Pattern.scalar Pattern.scalar.inj (nodup_pairwiseKinds .equal)
  intro b c hc
  split at hc
  · cases hc
  · obtain ⟨domain, _, rfl⟩ := Option.map_eq_some_iff.mp hc
    rfl

/-- The cells of a kind against the others are not for one of the pairs it has with itself. -/
theorem disjoint_pairs_otherKinds (k : Kind)
    : ((sameKind k).map Cell.pair).Disjoint ((otherKinds k).map Cell.pair) := by
  intro pq hsame hother
  obtain ⟨c, hc, rfl⟩ := List.mem_map.mp hother
  obtain ⟨b, _, hb⟩ := List.mem_filterMap.mp hc
  split at hb
  · cases hb
  next hkb =>
    obtain ⟨domain, _, rfl⟩ := Option.map_eq_some_iff.mp hb
    simp [sameKind, scalars, againstReference, Cell.pair, Ne.symm hkb] at hsame

theorem nodup_pairs_numericEquality : (numericEquality.map Cell.pair).Nodup := by
  change ((Registry.numeric.flatMap fun k => sameKind k ++ otherKinds k).map Cell.pair).Nodup
  apply nodup_pairs_flatMap Pattern.scalar Pattern.scalar.inj (nodup_pairwiseKinds .equal)
  · intro k c hc
    exact lhs_of_mem_kind hc
  · intro k _
    have hsame : ((sameKind k).map Cell.pair).Nodup := by
      simp [sameKind, scalars, againstReference, Cell.pair]
    exact nodup_pairs_append hsame (nodup_pairs_otherKinds k) (disjoint_pairs_otherKinds k)

theorem nodup_pairs_arrays : (arrays.map Cell.pair).Nodup := by
  have hshape {a b : Kind} (h : Pattern.array (.of a) = .array (.of b)) : a = b :=
    ArrayKind.of.inj (Pattern.array.inj h)
  have hkinds : Registry.all.Nodup := by decide
  apply @nodup_pairs_append heterogeneous
  · rw [heterogeneous, List.map_map]
    exact hkinds.map fun a b hab => hshape (congrArg Prod.snd hab)
  · apply nodup_pairs_flatMap (fun k => .array (.of k)) hshape hkinds
    · intro k c hc
      exact lhs_of_mem_homogeneous hc
    · intro k _
      simp [Cell.pair]
  · apply disjoint_pairs_of_lhs
    intro c hc d hd
    obtain ⟨k, _, hk⟩ := List.mem_flatMap.mp hd
    rw [lhs_of_mem_heterogeneous hc, lhs_of_mem_homogeneous hk]
    simp

/-- No two cells of an operator are for one pair. -/
theorem nodup_pairs_cells (op : Operator) : ((cells op).map Cell.pair).Nodup := by
  by_cases hop : op = .equal
  · subst hop
    have hscalars : ((numericEquality ++ distinguished .equal).map Cell.pair).Nodup := by
      apply nodup_pairs_append nodup_pairs_numericEquality (nodup_pairs_distinguished .equal)
      apply disjoint_pairs_distinguished
      intro _ c hc
      obtain ⟨k, hk, hc⟩ := mem_numericEquality.mp hc
      exact ⟨k, lhs_of_mem_kind hc, hk⟩
    apply nodup_pairs_append hscalars nodup_pairs_arrays
    apply disjoint_pairs_of_lhs
    intro c hc d hd
    obtain ⟨a, ha⟩ := lhs_of_mem_scalars hc
    obtain ⟨b, hb⟩ := lhs_of_mem_arrays hd
    rw [ha, hb]
    simp
  · rw [cells_of_ne_equal hop]
    apply nodup_pairs_append (nodup_pairs_pairwise op) (nodup_pairs_distinguished op)
    apply disjoint_pairs_distinguished
    intro hmultiply c hc
    obtain ⟨k, hk, b, _, domain, _, rfl⟩ := mem_pairwise_iff.mp hc
    exact ⟨k, rfl, isNumeric_of_mem_pairwiseKinds hk hmultiply⟩

end Synthesis

-----------------------------------------------------------------------------------------
-- Required pairs
-----------------------------------------------------------------------------------------

open Synthesis

/-- Apart from equality an operator requires the pairs of its pairwise cells. -/
theorem mem_requiredPairs_iff {op : Operator} {p q : Pattern} (hop : op ≠ .equal)
    : (p, q) ∈ requiredPairs op ↔ (p, q) ∈ (pairwise op).map Cell.pair := by
  simp only [requiredPairs, if_neg hop, List.mem_flatMap, List.mem_map, List.mem_filter,
    mem_pairwise_iff, Option.isSome_iff_exists]
  constructor
  · rintro ⟨a, ha, b, ⟨hb, domain, hpromote⟩, hpair⟩
    exact ⟨_, ⟨a, ha, b, hb, domain, hpromote, rfl⟩, hpair⟩
  · rintro ⟨_, ⟨a, ha, b, hb, domain, hpromote, rfl⟩, hpair⟩
    exact ⟨a, ha, b, ⟨hb, domain, hpromote⟩, hpair⟩

/-- Equality requires exactly the pairs that it has a body for, by cases on both patterns. -/
theorem mem_requiredPairs_equal_iff {p q : Pattern}
    : (p, q) ∈ requiredPairs .equal ↔ (equalityBody? p q).isSome = true := by
  have hnumeric (k : Kind) : k ∈ Operator.equal.pairwiseKinds ↔ k.isNumeric = true :=
    Registry.mem_numeric k
  have hkinds (k : Kind) : k ∈ Operator.equal.pairwiseKinds ∨ k ∈ Registry.distinguished := by
    rw [hnumeric, Registry.mem_distinguished]
    cases k.isNumeric <;> simp
  simp only [requiredPairs, if_true, List.mem_append, List.mem_flatMap, List.mem_map,
    List.mem_filter, List.mem_cons, List.not_mem_nil, or_false, Prod.mk.injEq]
  rcases p with k | k | (_ | k) <;> rcases q with l | l | (_ | l) <;>
    simp [equalityBody?, Registry.mem_all]
  case scalar.scalar =>
    by_cases hkl : k = l
    · simp [hkl, hkinds]
    · simp only [hkl, hnumeric, and_false, or_false, if_false]
      by_cases hk : k.isNumeric = true <;> by_cases hl : l.isNumeric = true <;> simp [hk, hl]
  case scalar.refTo => exact fun _ => hkinds l
  case array.of.array.of => exact eq_comm

-----------------------------------------------------------------------------------------
-- Tables that pass
-----------------------------------------------------------------------------------------

/-- The right patterns of one arm do not repeat if the pairs of the cells do not. -/
theorem Synthesis.nodup_rhs_casesFor {cells : List Cell} (h : (cells.map Cell.pair).Nodup)
    (p : Pattern)
    : ((casesFor cells p).map (·.rhs)).Nodup := by
  have hlhs {c : Cell} (hc : c ∈ cells.filter (·.lhs = p)) : c.lhs = p := by
    simpa using (List.mem_filter.mp hc).2
  have hpairs : ((cells.filter (·.lhs = p)).map Cell.pair).Nodup :=
    h.sublist (List.filter_sublist.map _)
  rw [casesFor, List.map_map]
  refine List.Nodup.map_on (fun c hc d hd hrhs => ?_) (List.Nodup.of_map _ hpairs)
  apply List.inj_on_of_nodup_map hpairs hc hd
  exact Prod.ext ((hlhs hc).trans (hlhs hd).symm) hrhs

/-- A table built from cells for different pairs is verified if its operator accepts them and they
are for every required pair.
-/
theorem Table.verified_ofCells {op : Operator} {cells : List Cell}
    (hdistinct : (cells.map Cell.pair).Nodup)
    (haccepts : ∀ c ∈ cells, op.Accepts c.lhs c.rhs c.body)
    (hrequired : ∀ p q, (p, q) ∈ requiredPairs op → (p, q) ∈ cells.map Cell.pair)
    : (Table.ofCells op cells).Verified := by
  refine ⟨⟨?_, fun arm harm => ?_, fun arm harm case hcase => ?_⟩, fun p q hpq => ?_⟩
  · rw [arms_ofCells, List.map_map]
    exact (List.map_id _).symm ▸ nodup_firstOccurrences _
  · rw [arms_ofCells] at harm
    obtain ⟨p, _, rfl⟩ := List.mem_map.mp harm
    exact nodup_rhs_casesFor hdistinct p
  · rw [op_ofCells, checkCase_eq_ok_iff]
    exact haccepts _ (exists_cell_of_mem_arms harm hcase)
  · rw [op_ofCells] at hpq
    exact contains_of_isSome_get? (isSome_get?_ofCells.mpr (hrequired p q hpq))

/-- The table of the pairwise cells alone is verified for every operator but equality. -/
theorem verified_pairwise {op : Operator} (hop : op ≠ .equal)
    : (Table.ofCells op (pairwise op)).Verified :=
  Table.verified_ofCells (nodup_pairs_pairwise op) (fun _ => accepts_of_mem_pairwise)
    fun _ _ => (mem_requiredPairs_iff hop).mp

/-- The synthesized table of every operator is verified. -/
theorem verified_synthesize (op : Operator) : (synthesize op).Verified := by
  refine Table.verified_ofCells (nodup_pairs_cells op) (fun _ => accepts_of_mem_cells)
    fun p q hpq => ?_
  by_cases hop : op = .equal
  · subst hop
    have hbody : ((synthesize .equal).get? p q).isSome = true := by
      rw [get?_synthesize_equal]
      exact mem_requiredPairs_equal_iff.mp hpq
    exact Table.isSome_get?_ofCells.mp hbody
  · rw [cells_of_ne_equal hop, List.map_append]
    exact List.mem_append_left _ ((mem_requiredPairs_iff hop).mp hpq)

end DynamicOps
