import DynamicOps.Proofs.Registry.Promotion
import DynamicOps.Proofs.Verification.Synthesized
import DynamicOps.Table.Rendering

/-!
Which tables have a text. Every case that its operator accepts has a rendering, and so has every
arm with such cases. An arm without cases is never checked against its left pattern, and a
reference has no rendering on the left.
-/

namespace DynamicOps

/-- All elements of a list have a result exactly when the list of the results exists. -/
theorem isSome_mapM_iff {α β : Type} {f : α → Option β} {xs : List α}
    : (xs.mapM f).isSome = true ↔ ∀ x ∈ xs, (f x).isSome = true := by
  induction xs with
  | nil => simp
  | cons x xs ih =>
      rw [List.forall_mem_cons, ← ih, List.mapM_cons]
      cases f x <;> cases xs.mapM f <;> simp

namespace Rendering

/-- Arithmetic has an expression in every domain of its operator. -/
theorem isSome_arithmetic {o : Arithmetic} {domain : Kind}
    (h : (Operator.compute o).Domain domain) (x y : String)
    : (arithmetic o domain x y).isSome = true := by
  cases h with
  | words h => cases o <;> first | rfl | exact absurd rfl h
  | binaries h => cases o <;> first | rfl | exact absurd rfl h
  | durations hdivide hmodulo =>
      cases o <;> first | rfl | exact absurd rfl hdivide | exact absurd rfl hmodulo

/-- An accepted body has an expression, by cases on the rule that supports it. -/
theorem isSome_body {op : Operator} {p q : Pattern} {b : Body} (h : op.Accepts p q b)
    : (body op p q b).isSome = true := by
  obtain ⟨hsupports, hagrees⟩ := h
  cases hsupports with
  | promoted found _ =>
      obtain ⟨_, _, hdomain⟩ := domain_of_promote hagrees
      cases op with
      | equal | order _ => rfl
      | compute o => exact isSome_arithmetic hdomain _ _
  | shift h | checked h => rcases h with rfl | rfl <;> rfl
  | equal _ | reference _ | order _ _ | concat | shiftBy | elapsed | elementwise _ | swapped _
  | arrays _ => rfl

theorem isSome_pattern_iff {bind : String} {p : Pattern}
    : (pattern bind p).isSome = true ↔ ∀ k, p ≠ .refTo k := by
  rcases p with k | k | (_ | k) <;> simp [pattern]

/-- A case has lines exactly when its body has an expression. -/
theorem isSome_case_eq (op : Operator) (level : Nat) (p : Pattern) (c : Case)
    : (case op level p c).isSome = (body op p c.rhs c.body).isSome := by
  obtain ⟨q, b⟩ := c
  rw [case]
  cases body op p q b with
  | none => rfl
  | some expression => rcases q with k | k | (_ | k) <;> rfl

theorem lhs_ne_refTo_of_accepts {op : Operator} {p q : Pattern} {b : Body}
    (h : op.Accepts p q b) (k : Kind)
    : p ≠ .refTo k := by
  rintro rfl
  cases h.supports

theorem isSome_arm_eq (op : Operator) (level : Nat) (a : Arm)
    : (arm op level a).isSome
      = ((pattern "x" a.lhs).isSome && (a.cases.mapM (case op (level + 1) a.lhs)).isSome) := by
  rw [arm]
  cases pattern "x" a.lhs <;> cases a.cases.mapM (case op (level + 1) a.lhs) <;> rfl

/-- An arm with accepted cases has lines unless it is an empty arm for references. -/
theorem isSome_arm_iff {op : Operator} {a : Arm} (level : Nat)
    (h : ∀ c ∈ a.cases, op.Accepts a.lhs c.rhs c.body)
    : (arm op level a).isSome = true ↔ (a.cases = [] → ∀ k, a.lhs ≠ .refTo k) := by
  have hcases : (a.cases.mapM (case op (level + 1) a.lhs)).isSome = true := by
    refine isSome_mapM_iff.mpr fun c hc => ?_
    rw [isSome_case_eq]
    exact isSome_body (h c hc)
  rw [isSome_arm_eq, hcases, Bool.and_true, isSome_pattern_iff]
  constructor
  · exact fun hlhs _ => hlhs
  · intro hempty
    cases hcs : a.cases with
    | nil => exact hempty hcs
    | cons c _ => exact lhs_ne_refTo_of_accepts (h c (by simp [hcs]))

end Rendering

open Rendering

theorem Table.isSome_render?_iff {t : Table} {indent : Nat}
    : (t.render? indent).isSome = true
      ↔ ∀ a ∈ t.arms, (arm t.op (indent + 1) a).isSome = true := by
  rw [← isSome_mapM_iff, render?, Option.isSome_map, lines?]
  cases t.arms.mapM (arm t.op (indent + 1)) <;> rfl

/-- Every left pattern and every body of a table has a rendering. -/
def Table.Renderable (t : Table) : Prop :=
  ∀ a ∈ t.arms,
    (pattern "x" a.lhs).isSome = true
    ∧ ∀ c ∈ a.cases, (body t.op a.lhs c.rhs c.body).isSome = true

/-- A table has a text exactly when all its parts have one, whatever the indentation. -/
theorem Table.isSome_render?_iff_renderable {t : Table} {indent : Nat}
    : (t.render? indent).isSome = true ↔ t.Renderable := by
  rw [isSome_render?_iff]
  refine forall₂_congr fun a _ => ?_
  rw [isSome_arm_eq, Bool.and_eq_true, isSome_mapM_iff]
  simp only [isSome_case_eq]

/-- Every operator's table has a text, since none of its arms is empty. -/
theorem isSome_render?_synthesize (op : Operator) (indent : Nat)
    : ((synthesize op).render? indent).isSome = true := by
  refine Table.isSome_render?_iff.mpr fun a ha => ?_
  refine (isSome_arm_iff (indent + 1) fun c hc => ?_).mpr fun hempty => ?_
  · exact checkCase_eq_ok_iff.mp ((verified_synthesize op).accepted a ha c hc)
  · exact absurd hempty (Table.cases_ne_nil_of_mem_arms ha)

/-- A verified table has a text exactly when it has no empty arm for references, whatever the
indentation.
-/
theorem verified_rendering_iff {t : Table} (h : verify t = .ok ()) (indent : Nat)
    : (t.render? indent).isSome = true
      ↔ ∀ a ∈ t.arms, a.cases = [] → ∀ k, a.lhs ≠ .refTo k := by
  have haccepts (a : Arm) (ha : a ∈ t.arms) (c : Case) (hc : c ∈ a.cases)
      : t.op.Accepts a.lhs c.rhs c.body :=
    checkCase_eq_ok_iff.mp ((verify_eq_ok_iff.mp h).accepted a ha c hc)
  rw [Table.isSome_render?_iff]
  exact forall₂_congr fun a ha => isSome_arm_iff (indent + 1) (haccepts a ha)

/-- The table of equality is verified and has a text, since none of its arms is empty. -/
theorem verified_rendering_iff_equality
    : verify (synthesize .equal) = .ok ()
      ∧ ((synthesize .equal).render? 1).isSome = true := by
  have hverify : verify (synthesize .equal) = .ok () :=
    verify_eq_ok_iff.mpr (verified_synthesize .equal)
  refine ⟨hverify, (verified_rendering_iff hverify 1).mpr fun a ha hempty => ?_⟩
  exact absurd hempty (Table.cases_ne_nil_of_mem_arms ha)

/-- The remainder's table with an empty arm for references is verified and has no text. -/
theorem verified_without_text
    : verify ⟨.compute .modulo, (synthesize (.compute .modulo)).arms ++ [⟨.refTo .bool, []⟩]⟩
        = .ok ()
      ∧ Table.render?
          ⟨.compute .modulo, (synthesize (.compute .modulo)).arms ++ [⟨.refTo .bool, []⟩]⟩ 0
        = none := by
  decide +kernel

end DynamicOps
