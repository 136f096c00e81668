import DynamicOps.Proofs.Equality.Verdict
import Mathlib.Data.List.Forall2

/-!
One level of the equality operator. Equality holds of two values when the verdict on their resolved
shapes does, where lists and records compare member by member with equality itself.
-/

namespace DynamicOps

section Members

variable {α β : Type} {R S : α → β → Prop} {xs : List α} {ys : List β}

/-- A relation that implies another one on the members of two lists does so on the lists. -/
theorem forall₂_imp_of_mem (h : ∀ x ∈ xs, ∀ y ∈ ys, R x y → S x y)
    : List.Forall₂ R xs ys → List.Forall₂ S xs ys := by
  simp only [List.forall₂_iff_zip]
  rintro ⟨hlength, hR⟩
  refine ⟨hlength, fun {x y} hxy => ?_⟩
  obtain ⟨hx, hy⟩ := List.of_mem_zip hxy
  exact h x hx y hy (hR hxy)

/-- Two relations that agree on the members of two lists relate the lists alike. -/
theorem forall₂_congr_of_mem (h : ∀ x ∈ xs, ∀ y ∈ ys, R x y ↔ S x y)
    : List.Forall₂ R xs ys ↔ List.Forall₂ S xs ys :=
  ⟨forall₂_imp_of_mem fun x hx y hy => (h x hx y hy).mp,
    forall₂_imp_of_mem fun x hx y hy => (h x hx y hy).mpr⟩

/-- A relation between lists is the opposite relation between them exchanged. -/
theorem forall₂_flip_iff : List.Forall₂ (flip R) ys xs ↔ List.Forall₂ R xs ys :=
  ⟨List.Forall₂.flip, List.Forall₂.flip⟩

end Members

variable {ε : Type} [Extension ε]

namespace Verdict

/-- Lists are equal when they are related by equality item by item. -/
theorem holds_ofItems (xs ys : List (Value ε))
    : (ofItems xs ys).holds = true ↔ List.Forall₂ (fun x y => equal x y = true) xs ys := by
  rw [List.forall₂_iff_zip, ofItems]
  by_cases h : xs.length = ys.length
  · simp [holds, h]
  · simp [h]

/-- Records are equal when their fields have the same names and equal values one by one, by
induction over the fields.
-/
theorem holds_ofFields (xs ys : List (String × Value ε))
    : (ofFields xs ys).holds = true
      ↔ List.Forall₂ (fun f g => f.1 = g.1 ∧ equal f.2 g.2 = true) xs ys := by
  have hnames : (ofFields xs ys).holds = true
      ↔ xs.map Prod.fst = ys.map Prod.fst
        ∧ ((xs.map Prod.snd).zip (ys.map Prod.snd)).all (fun p => equal p.1 p.2) = true := by
    unfold ofFields
    by_cases h : xs.map Prod.fst = ys.map Prod.fst <;> simp [holds, h]
  rw [hnames]
  clear hnames
  induction xs generalizing ys with
  | nil => cases ys <;> simp
  | cons x xs ih =>
      cases ys with
      | nil => simp
      | cons y ys =>
          simp only [List.map_cons, List.cons.injEq, List.zip_cons_cons, List.all_cons,
            Bool.and_eq_true, List.forall₂_cons, ← ih]
          tauto

end Verdict

/-- Equality is the verdict on the resolved shapes of its operands. -/
theorem equal_eq_holds (lhs rhs : Value ε)
    : equal lhs rhs = (Verdict.ofShapes lhs.resolve rhs.resolve).holds := by
  rw [← Verdict.holds_of, Verdict.of_eq_ofShapes]

/-- Scalars are equal as the table compares them. -/
@[simp]
theorem equal_scalar_scalar (s t : Scalar)
    : equal (.scalar s : Value ε) (.scalar t) = s.equal t :=
  equal_eq_holds _ _

theorem equal_list_list (xs ys : List (Value ε))
    : equal (.list xs) (.list ys) = true
      ↔ List.Forall₂ (fun x y => equal x y = true) xs ys := by
  rw [equal_eq_holds]
  exact Verdict.holds_ofItems xs ys

theorem equal_record_record (xs ys : List (String × Value ε))
    : equal (.record xs) (.record ys) = true
      ↔ List.Forall₂ (fun f g => f.1 = g.1 ∧ equal f.2 g.2 = true) xs ys := by
  rw [equal_eq_holds]
  exact Verdict.holds_ofFields xs ys

end DynamicOps
