import DynamicOps.Proofs.Equality.Symmetry

/-!
Equality of arrays. An array compares with arrays of its kind and with lists as the list of its
elements does, on either side, whether the elements are compared natively or one by one. Arrays of
different kinds never are equal.
-/

namespace DynamicOps

variable {ε : Type}

/-- The elements of a homogeneous sequence as values. -/
def TypedArray.values (a : TypedArray) : List (Value ε) :=
  a.toScalars.map .scalar

/-- Sequences of payloads are equal payload by payload, by induction over both. -/
theorem Kind.equalItems_iff (k : Kind) (xs ys : List k.Payload)
    : k.equalItems xs ys = true ↔ List.Forall₂ (fun x y => k.equal x y = true) xs ys := by
  induction xs generalizing ys with
  | nil => cases ys <;> simp [equalItems]
  | cons x xs ih =>
      cases ys with
      | nil => simp [equalItems]
      | cons y ys => simp [equalItems, ih]

variable [Extension ε]

theorem TypedArray.same_iff {k : Kind} (xs ys : List k.Payload)
    : same ⟨k, xs⟩ ⟨k, ys⟩ = true
      ↔ List.Forall₂ (fun v w : Value ε => equal v w = true) (values ⟨k, xs⟩) (values ⟨k, ys⟩) := by
  have hnative : same ⟨k, xs⟩ ⟨k, ys⟩ = k.equalItems xs ys := by simp [same, equal?]
  have hequal (x y : k.Payload)
      : equal (.scalar ⟨k, x⟩ : Value ε) (.scalar ⟨k, y⟩) = k.equal x y := by
    rw [equal_scalar_scalar, Scalar.equal_same_kind]
  simp only [hnative, Kind.equalItems_iff, values, toScalars, List.forall₂_map_left_iff,
    List.forall₂_map_right_iff, hequal]

theorem equal_list_array (xs : List (Value ε)) (a : TypedArray)
    : equal (.list xs) (.array a) = equal (.list xs) (.list a.values) := by
  rw [equal_eq_holds, equal_eq_holds]
  rfl

theorem equal_array_list (a : TypedArray) (ys : List (Value ε))
    : equal (.array a) (.list ys) = equal (.list ys) (.array a) := by
  rw [equal_eq_holds, equal_eq_holds]
  rfl

theorem equal_array_array_of_kind_eq {a b : TypedArray} (h : a.kind = b.kind)
    : equal (.array a : Value ε) (.array b)
      = equal (.list a.values : Value ε) (.list b.values) := by
  obtain ⟨k, xs⟩ := a
  obtain ⟨l, ys⟩ := b
  cases h
  rw [equal_eq_holds, Bool.eq_iff_iff, equal_list_list]
  exact TypedArray.same_iff xs ys

theorem equal_array_array_of_kind_ne {a b : TypedArray} (h : a.kind ≠ b.kind)
    : equal (.array a : Value ε) (.array b) = false := by
  rw [equal_eq_holds]
  change a.same b = false
  simp [TypedArray.same, TypedArray.equal?, h]

/-- Scalars may change sides item by item, so lists of them may as a whole. -/
theorem equal_values_comm (a : TypedArray) (xs : List (Value ε))
    : equal (.list a.values) (.list xs) = equal (.list xs) (.list a.values) := by
  rw [Bool.eq_iff_iff, equal_list_list, equal_list_list, ← forall₂_flip_iff]
  refine forall₂_congr_of_mem fun x _ y hy => ?_
  obtain ⟨s, _, rfl⟩ := List.mem_map.mp hy
  rw [flip, equal_comm_of_members_eq_nil rfl nofun]

/-- Two lists have one length, and equal values at every index. -/
def EqualAtIndices (xs ys : List (Value ε)) : Prop :=
  xs.length = ys.length
  ∧ ∀ (i : Nat) (hx : i < xs.length) (hy : i < ys.length), equal xs[i] ys[i] = true

theorem equal_list_list_iff_indices (xs ys : List (Value ε))
    : equal (.list xs) (.list ys) = true ↔ EqualAtIndices xs ys := by
  rw [equal_list_list, List.forall₂_iff_get]
  rfl

/-- Arrays of one kind are equal as the lists of their elements are, and as one such list is to the
other array; an array and a list are so in either order; and all of that is equality at every index.
Arrays of different kinds are not equal, whatever their elements.
-/
theorem arrays_compared_as_lists (a b : TypedArray) (items : List (Value ε))
    : (a.kind = b.kind →
          equal (.array a : Value ε) (.array b) = equal (.list a.values : Value ε) (.list b.values)
          ∧ equal (.list a.values : Value ε) (.array b)
            = equal (.list a.values : Value ε) (.list b.values)
          ∧ (equal (.array a : Value ε) (.array b) = true
            ↔ EqualAtIndices (ε := ε) a.values b.values))
      ∧ (a.kind ≠ b.kind → equal (.array a : Value ε) (.array b) = false)
      ∧ equal (.array a) (.list items) = equal (.list items) (.array a)
      ∧ equal (.array a) (.list items) = equal (.list a.values) (.list items)
      ∧ (equal (.array a) (.list items) = true ↔ EqualAtIndices a.values items) := by
  have hlist : equal (.array a) (.list items) = equal (.list a.values) (.list items) := by
    rw [equal_array_list, equal_list_array, equal_values_comm]
  refine ⟨fun h => ⟨equal_array_array_of_kind_eq h, equal_list_array _ b, ?_⟩,
    equal_array_array_of_kind_ne, equal_array_list a items, hlist, ?_⟩
  · rw [equal_array_array_of_kind_eq h, equal_list_list_iff_indices]
  · rw [hlist, equal_list_list_iff_indices]

/-- An array of a NaN is no more equal to itself than the list of it is, and empty arrays of two
kinds are not equal to each other.
-/
theorem arrays_compared_as_lists_nan
    : (⟨.f64, [.nan]⟩ : TypedArray).kind = (⟨.f64, [.nan]⟩ : TypedArray).kind
      ∧ equal (.array ⟨.f64, [.nan]⟩ : Value Labelled) (.array ⟨.f64, [.nan]⟩) = false
      ∧ (⟨.i64, []⟩ : TypedArray).kind ≠ (⟨.text, []⟩ : TypedArray).kind
      ∧ equal (.array ⟨.i64, []⟩ : Value Labelled) (.array ⟨.text, []⟩) = false := by
  have hkinds : (⟨.i64, []⟩ : TypedArray).kind ≠ (⟨.text, []⟩ : TypedArray).kind := by decide
  refine ⟨rfl, ?_, hkinds, (arrays_compared_as_lists ⟨.i64, []⟩ ⟨.text, []⟩ []).2.1 hkinds⟩
  rw [((arrays_compared_as_lists ⟨.f64, [.nan]⟩ ⟨.f64, [.nan]⟩ []).1 rfl).1]
  decide +kernel

end DynamicOps
