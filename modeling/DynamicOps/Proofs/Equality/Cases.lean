import DynamicOps.Proofs.Table.Lookup

/-!
The cases of the equality table, read off its enumeration: every kind natively against itself,
bare and by reference, two numeric kinds in the domain of the lattice, and arrays by elements or
natively.
-/

namespace DynamicOps

namespace Registry

/-- Every kind is in the registry. -/
theorem mem_all (k : Kind) : k ∈ all := by
  rcases k with (w | w) | p | _ | _ | _ | _
  · cases w <;> decide
  · cases w <;> decide
  · cases p <;> decide
  all_goals decide

/-- The numeric part of the registry holds the numeric kinds. -/
theorem mem_numeric (k : Kind) : k ∈ numeric ↔ k.isNumeric = true := by
  have h : ∀ k ∈ all, (k ∈ numeric ↔ k.isNumeric = true) := by decide
  exact h k (mem_all k)

/-- The distinguished part of the registry holds the kinds that are not numeric. -/
theorem mem_distinguished (k : Kind) : k ∈ distinguished ↔ k.isNumeric = false := by
  have h : ∀ k ∈ all, (k ∈ distinguished ↔ k.isNumeric = false) := by decide
  exact h k (mem_all k)

end Registry

/-- What the equality operator does with two shapes. -/
def equalityBody? : Pattern → Pattern → Option Body
  | .scalar k, .scalar l =>
    if k = l then some .native
    else if k.isNumeric && l.isNumeric then (promote .equal k l).map .promote
    else none
  | .scalar k, .refTo l => if k = l then some .native else none
  | .array .any, .array (.of _) => some .elementwise
  | .array (.of _), .array .any => some .swapped
  | .array (.of k), .array (.of l) => if k = l then some .native else none
  | _, _ => none

namespace Synthesis

/-- The cells of a kind against itself, bare and by reference. -/
def sameKind (k : Kind) : List Cell :=
  [scalars k k .native, againstReference k]

/-- The cells of a numeric kind against every other numeric kind. -/
def otherKinds (k : Kind) : List Cell :=
  Registry.numeric.filterMap fun b =>
    if k = b then none
    else (promote .equal k b).map fun domain => scalars k b (.promote domain)

theorem lhs_of_mem_sameKind {k : Kind} {c : Cell} (h : c ∈ sameKind k) : c.lhs = .scalar k := by
  simp only [sameKind, List.mem_cons, List.not_mem_nil, or_false] at h
  rcases h with rfl | rfl <;> rfl

/-- Every cell against another kind is one of two scalars. -/
theorem patterns_of_mem_otherKinds {k : Kind} {c : Cell} (h : c ∈ otherKinds k)
    : c.lhs = .scalar k ∧ ∃ b, c.rhs = .scalar b := by
  obtain ⟨b, _, hb⟩ := List.mem_filterMap.mp h
  split at hb
  · cases hb
  · obtain ⟨_, _, rfl⟩ := Option.map_eq_some_iff.mp hb
    exact ⟨rfl, b, rfl⟩

theorem lhs_of_mem_kind {k : Kind} {c : Cell} (h : c ∈ sameKind k ++ otherKinds k)
    : c.lhs = .scalar k := by
  rcases List.mem_append.mp h with h | h
  · exact lhs_of_mem_sameKind h
  · exact (patterns_of_mem_otherKinds h).1

theorem mem_numericEquality {c : Cell}
    : c ∈ numericEquality ↔ ∃ k : Kind, k.isNumeric = true ∧ c ∈ sameKind k ++ otherKinds k := by
  change c ∈ Registry.numeric.flatMap (fun k => sameKind k ++ otherKinds k) ↔ _
  simp only [List.mem_flatMap, Registry.mem_numeric]

theorem mem_distinguished_equal {c : Cell}
    : c ∈ distinguished .equal ↔ ∃ k : Kind, k.isNumeric = false ∧ c ∈ sameKind k := by
  change c ∈ Registry.distinguished.flatMap sameKind ↔ _
  simp only [List.mem_flatMap, Registry.mem_distinguished]

/-- The cells of a kind against itself answer for its scalars and its references. -/
theorem bodyFor?_sameKind (k : Kind) (q : Pattern)
    : bodyFor? (sameKind k) (.scalar k) q
      = if q = .scalar k ∨ q = .refTo k then some .native else none := by
  by_cases hs : .scalar k = q
  · simp [sameKind, scalars, ← hs]
  · by_cases hr : .refTo k = q
    · simp [sameKind, scalars, againstReference, ← hr]
    · simp [sameKind, scalars, againstReference, hs, hr, Ne.symm hs, Ne.symm hr]

/-- The cells against other kinds answer for scalars of other numeric kinds. -/
theorem bodyFor?_otherKinds_scalar (k l : Kind)
    : bodyFor? (otherKinds k) (.scalar k) (.scalar l)
      = if k ≠ l ∧ l.isNumeric then (promote .equal k l).map .promote else none := by
  rw [otherKinds, bodyFor?_filterMap Pattern.scalar.inj]
  · by_cases hkl : k = l
    · simp [hkl]
    · simp [hkl, Registry.mem_numeric, scalars, Function.comp_def]
  · intro b c hc
    split at hc
    · cases hc
    · obtain ⟨_, _, rfl⟩ := Option.map_eq_some_iff.mp hc
      exact ⟨rfl, rfl⟩

/-- The cells against other kinds answer for nothing but scalars. -/
theorem bodyFor?_otherKinds_eq_none (k : Kind) {q : Pattern} (hq : ∀ l, q ≠ .scalar l)
    : bodyFor? (otherKinds k) (.scalar k) q = none := by
  refine bodyFor?_eq_none_of_rhs fun c hc => ?_
  obtain ⟨_, b, hb⟩ := patterns_of_mem_otherKinds hc
  exact hb ▸ (hq b).symm

/-- Numeric equality answers for a numeric kind as the equality operator does. -/
theorem bodyFor?_numericEquality (k : Kind) (q : Pattern)
    : bodyFor? numericEquality (.scalar k) q
      = if k.isNumeric then equalityBody? (.scalar k) q else none := by
  change bodyFor? (Registry.numeric.flatMap fun a => sameKind a ++ otherKinds a) _ _ = _
  rw [bodyFor?_flatMap Pattern.scalar Pattern.scalar.inj (fun _ _ => lhs_of_mem_kind),
    bodyFor?_append, bodyFor?_sameKind]
  simp only [Registry.mem_numeric]
  by_cases hk : k.isNumeric
  · cases q with
    | scalar l =>
        rw [bodyFor?_otherKinds_scalar]
        by_cases hkl : k = l
        · simp [equalityBody?, hkl]
        · simp [equalityBody?, hkl, Ne.symm hkl, hk]
    | refTo l =>
        rw [bodyFor?_otherKinds_eq_none k (by simp)]
        simp [equalityBody?, hk, eq_comm]
    | array a =>
        rw [bodyFor?_otherKinds_eq_none k (by simp)]
        simp [equalityBody?]
  · simp [hk]

/-- Equality of the other kinds answers for them as the equality operator does. -/
theorem bodyFor?_distinguished_equal (k : Kind) (q : Pattern)
    : bodyFor? (distinguished .equal) (.scalar k) q
      = if k.isNumeric then none else equalityBody? (.scalar k) q := by
  change bodyFor? (Registry.distinguished.flatMap sameKind) _ _ = _
  rw [bodyFor?_flatMap Pattern.scalar Pattern.scalar.inj (fun _ _ => lhs_of_mem_sameKind),
    bodyFor?_sameKind]
  simp only [Registry.mem_distinguished]
  by_cases hk : k.isNumeric
  · simp [hk]
  · cases q with
    | scalar l => simp [equalityBody?, hk, eq_comm]
    | refTo l => simp [equalityBody?, hk, eq_comm]
    | array a => simp [equalityBody?]

/-- The cells of heterogeneous arrays against homogeneous ones. -/
def heterogeneous : List Cell :=
  Registry.all.map fun k => ⟨.array .any, .array (.of k), .elementwise⟩

/-- The cells of the homogeneous arrays of a kind against heterogeneous ones and their like. -/
def homogeneous (k : Kind) : List Cell :=
  [⟨.array (.of k), .array .any, .swapped⟩, ⟨.array (.of k), .array (.of k), .native⟩]

theorem lhs_of_mem_heterogeneous {c : Cell} (h : c ∈ heterogeneous) : c.lhs = .array .any := by
  obtain ⟨k, _, rfl⟩ := List.mem_map.mp h
  rfl

theorem lhs_of_mem_homogeneous {k : Kind} {c : Cell} (h : c ∈ homogeneous k)
    : c.lhs = .array (.of k) := by
  simp only [homogeneous, List.mem_cons, List.not_mem_nil, or_false] at h
  rcases h with rfl | rfl <;> rfl

theorem mem_arrays {c : Cell} : c ∈ arrays ↔ c ∈ heterogeneous ∨ ∃ k, c ∈ homogeneous k := by
  change c ∈ heterogeneous ++ Registry.all.flatMap homogeneous ↔ _
  simp only [List.mem_append, List.mem_flatMap, Registry.mem_all, true_and]

/-- The cells of heterogeneous arrays answer for every homogeneous one. -/
theorem bodyFor?_heterogeneous (q : Pattern)
    : bodyFor? heterogeneous (.array .any) q = equalityBody? (.array .any) q := by
  rcases q with l | l | (_ | l)
  · exact bodyFor?_eq_none_of_rhs (by simp [heterogeneous])
  · exact bodyFor?_eq_none_of_rhs (by simp [heterogeneous])
  · exact bodyFor?_eq_none_of_rhs (by simp [heterogeneous])
  · have hshape {a b : Kind} (h : Pattern.array (.of a) = .array (.of b)) : a = b :=
      ArrayKind.of.inj (Pattern.array.inj h)
    rw [heterogeneous, ← List.filterMap_eq_map, bodyFor?_filterMap hshape]
    · simp [Registry.mem_all, equalityBody?]
    · intro b c hc
      cases hc
      exact ⟨rfl, rfl⟩

/-- The cells of homogeneous arrays answer for heterogeneous arrays and for their own kind. -/
theorem bodyFor?_homogeneous (k : Kind) (q : Pattern)
    : bodyFor? (Registry.all.flatMap homogeneous) (.array (.of k)) q
      = equalityBody? (.array (.of k)) q := by
  have hshape {a b : Kind} (h : Pattern.array (.of a) = .array (.of b)) : a = b :=
    ArrayKind.of.inj (Pattern.array.inj h)
  rw [bodyFor?_flatMap (fun k => Pattern.array (.of k)) hshape
    (fun _ _ => lhs_of_mem_homogeneous), if_pos (Registry.mem_all k)]
  rcases q with l | l | (_ | l) <;> simp [homogeneous, equalityBody?]

/-- The cells outside arrays have scalars on their left. -/
theorem lhs_of_mem_scalars {c : Cell} (h : c ∈ numericEquality ++ distinguished .equal)
    : ∃ a, c.lhs = .scalar a := by
  rcases List.mem_append.mp h with h | h
  · obtain ⟨a, _, ha⟩ := mem_numericEquality.mp h
    exact ⟨a, lhs_of_mem_kind ha⟩
  · obtain ⟨a, _, ha⟩ := mem_distinguished_equal.mp h
    exact ⟨a, lhs_of_mem_sameKind ha⟩

/-- The cells of arrays have arrays on their left. -/
theorem lhs_of_mem_arrays {c : Cell} (h : c ∈ arrays) : ∃ a, c.lhs = .array a := by
  rcases mem_arrays.mp h with h | ⟨k, h⟩
  · exact ⟨.any, lhs_of_mem_heterogeneous h⟩
  · exact ⟨.of k, lhs_of_mem_homogeneous h⟩

end Synthesis

open Synthesis

/-- The equality table has the cases of equality and no others, by cases on the left pattern. -/
theorem get?_synthesize_equal (p q : Pattern)
    : (synthesize .equal).get? p q = equalityBody? p q := by
  have hscalars (hp : ∀ a, p ≠ .scalar a)
      : bodyFor? (numericEquality ++ distinguished .equal) p q = none := by
    refine bodyFor?_eq_none_of_lhs fun c hc => ?_
    obtain ⟨a, ha⟩ := lhs_of_mem_scalars hc
    exact ha ▸ (hp a).symm
  have harrays (hp : ∀ a, p ≠ .array a)
      : bodyFor? (heterogeneous ++ Registry.all.flatMap homogeneous) p q = none := by
    refine bodyFor?_eq_none_of_lhs fun c hc => ?_
    obtain ⟨a, ha⟩ := lhs_of_mem_arrays hc
    exact ha ▸ (hp a).symm
  change (Table.ofCells .equal (numericEquality ++ distinguished .equal
    ++ (heterogeneous ++ Registry.all.flatMap homogeneous))).get? p q = _
  rw [Table.get?_ofCells, bodyFor?_append]
  rcases p with k | k | (_ | k)
  · rw [harrays (by simp), bodyFor?_append, bodyFor?_numericEquality,
      bodyFor?_distinguished_equal]
    by_cases hk : k.isNumeric <;> simp [hk]
  · rw [hscalars (by simp), harrays (by simp)]
    rfl
  · have hnone : bodyFor? (Registry.all.flatMap homogeneous) (.array .any) q = none := by
      refine bodyFor?_eq_none_of_lhs fun c hc => ?_
      obtain ⟨a, _, ha⟩ := List.mem_flatMap.mp hc
      rw [lhs_of_mem_homogeneous ha]
      simp
    rw [hscalars (by simp), bodyFor?_append, bodyFor?_heterogeneous, hnone]
    simp
  · have hnone : bodyFor? heterogeneous (.array (.of k)) q = none := by
      refine bodyFor?_eq_none_of_lhs fun c hc => ?_
      rw [lhs_of_mem_heterogeneous hc]
      simp
    rw [hscalars (by simp), bodyFor?_append, bodyFor?_homogeneous, hnone]
    simp

end DynamicOps
