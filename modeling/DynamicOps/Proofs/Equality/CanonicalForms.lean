import DynamicOps.Proofs.Equality.Level
import DynamicOps.Proofs.Value.Members
import DynamicOps.Value.Labelled

/-!
Equality without floating numbers. A value without floating numbers has a canonical form, in which
integers of all kinds are 64-bit words, present references are their targets, and nil references
are all the same; equality is sameness of canonical forms, and therefore an equivalence.
-/

namespace DynamicOps

variable {ε : Type}

namespace Value

/-- The values built from nil, scalars that are no floating numbers, and references to such
scalars, by lists and records of any depth.
-/
inductive Discrete : Value ε → Prop
  | nil : Discrete .nil
  | scalar {s : Scalar} (h : s.kind.isFloat = false) : Discrete (.scalar s)
  | nilRef (k : Kind) : Discrete (.ref (.nil k))
  | presentRef {s : Scalar} (h : s.kind.isFloat = false) : Discrete (.ref (.present s))
  | list {items : List (Value ε)} (h : ∀ v ∈ items, Discrete v) : Discrete (.list items)
  | record {fields : List (String × Value ε)} (h : ∀ f ∈ fields, Discrete f.2)
    : Discrete (.record fields)

/-- The canonical form of a value without members. -/
def canonicalLeaf : Value ε → Value ε
  | scalar s => scalar s.canonical
  | ref (.present s) => scalar s.canonical
  | ref (.nil _) => ref (.nil .bool)
  | v => v

/-- A value with its scalars and references in canonical form, at any depth. -/
def canonical (v : Value ε) : Value ε :=
  v.mapLeaves canonicalLeaf

/-- Lists have the same canonical form when their items have it one by one. -/
theorem canonical_list_eq_iff (xs ys : List (Value ε))
    : (list xs).canonical = (list ys).canonical
      ↔ List.Forall₂ (fun x y => x.canonical = y.canonical) xs ys := by
  rw [canonical, canonical, mapLeaves_list, mapLeaves_list, list.injEq,
    ← List.forall₂_eq_eq_eq, List.forall₂_map_left_iff, List.forall₂_map_right_iff]
  rfl

/-- Records have the same canonical form when their fields have it one by one. -/
theorem canonical_record_eq_iff (xs ys : List (String × Value ε))
    : (record xs).canonical = (record ys).canonical
      ↔ List.Forall₂ (fun f g => f.1 = g.1 ∧ f.2.canonical = g.2.canonical) xs ys := by
  rw [canonical, canonical, mapLeaves_record, mapLeaves_record, record.injEq,
    ← List.forall₂_eq_eq_eq, List.forall₂_map_left_iff, List.forall₂_map_right_iff]
  simp only [Prod.mk.injEq]
  rfl

end Value

variable [Extension ε]

/-- Values without floating numbers are equal when their canonical forms are the same, by induction
over how the left one was built.
-/
theorem equal_iff_canonical_eq {a b : Value ε} (ha : a.Discrete) (hb : b.Discrete)
    : equal a b = true ↔ a.canonical = b.canonical := by
  induction ha generalizing b <;> cases hb
  case list.list hxs ih _ hys =>
    rw [equal_list_list, Value.canonical_list_eq_iff]
    exact forall₂_congr_of_mem fun x hx y hy => ih x hx (hys y hy)
  case record.record hxs ih _ hys =>
    rw [equal_record_record, Value.canonical_record_eq_iff]
    exact forall₂_congr_of_mem fun f hf g hg => and_congr_right' (ih f hf (hys g hg))
  case scalar.scalar hs _ ht | scalar.presentRef hs _ ht | presentRef.scalar hs _ ht
    | presentRef.presentRef hs _ ht =>
    rw [equal_eq_holds]
    refine (Scalar.equal_iff_canonical_eq hs ht).trans ?_
    simp [Value.canonical, Value.mapLeaves, Value.canonicalLeaf]
  -- Nil and nil references are equal to their like only, and so are lists and records.
  all_goals
    simp [equal_eq_holds, Value.resolve, Verdict.ofShapes, Value.canonical, Value.mapLeaves,
      Value.canonicalLeaf]

/-- Operator equality is an equivalence on the values without floating numbers, with integers of
all kinds and at any depth, through their canonical forms.
-/
theorem equality_equivalence
    : Equivalence fun a b : {v : Value ε // v.Discrete} => equal a.1 b.1 = true := by
  refine ⟨fun a => ?_, fun {a b} hab => ?_, fun {a b c} hab hbc => ?_⟩
  · exact (equal_iff_canonical_eq a.2 a.2).mpr rfl
  · have hcanonical := (equal_iff_canonical_eq a.2 b.2).mp hab
    exact (equal_iff_canonical_eq b.2 a.2).mpr hcanonical.symm
  · have hleft := (equal_iff_canonical_eq a.2 b.2).mp hab
    have hright := (equal_iff_canonical_eq b.2 c.2).mp hbc
    exact (equal_iff_canonical_eq a.2 c.2).mpr (hleft.trans hright)

/-- The greatest unsigned word and the signed word before zero are in one class. -/
example
    : equal (.scalar ⟨.int (.unsigned .w64), ⟨18446744073709551615, by decide, by decide⟩⟩)
        (.ref (.present (.ofWord (.wrap (-1)))) : Value Labelled)
      = true := by
  decide +kernel

end DynamicOps
