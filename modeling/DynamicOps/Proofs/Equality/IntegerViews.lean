import DynamicOps.Proofs.Equality.Symmetry

/-!
Equality of values with integer views. Integers of one family are equal exactly when they are the
same number, whether they are held by scalars, of which the table compares the words, or viewed of
extensions, behind references or not. Nothing else but another extension is equal to an extension.
-/

namespace DynamicOps

variable {ε : Type}

theorem IntegerView.eq_iff {m n : IntegerView} (h : m.family = n.family)
    : m = n ↔ m.val = n.val := by
  cases m <;> cases n
  case signed.signed | unsigned.unsigned => simp [val]
  all_goals cases h

theorem IntKind.isSigned_eq {k l : IntKind} (h : (Kind.int k).family = (Kind.int l).family)
    : k.isSigned = l.isSigned := by
  cases k <;> cases l <;> first | rfl | cases h

variable [Extension ε]

namespace Value

/-- Two values have integer views of one family and of one number, once references are resolved. -/
def SameInteger (v w : Value ε) : Prop :=
  ∃ m n, v.resolve.integer? = some m ∧ w.resolve.integer? = some n
    ∧ m.family = n.family ∧ m.val = n.val

/-- A view is that of a scalar's integer or of an extension. -/
theorem cases_of_integer? {v : Value ε} {m : IntegerView} (h : v.integer? = some m)
    : (∃ k, ∃ x : Word k,
          v = .scalar ⟨.int k, x⟩ ∧ m.family = (Kind.int k).family ∧ m.val = x.val)
      ∨ ∃ x, v = .extension x := by
  rcases v with _ | ⟨(k | k) | _ | _ | _ | _ | _, x⟩ | _ | _ | _ | _ | x
  case scalar.int.unsigned =>
    cases h
    have hnonneg : 0 ≤ x.val := x.least_le
    exact .inl ⟨_, x, rfl, rfl, Int.toNat_of_nonneg hnonneg⟩
  case scalar.int.signed =>
    cases h
    exact .inl ⟨_, x, rfl, rfl, rfl⟩
  case extension => exact .inr ⟨x, rfl⟩
  all_goals cases h

end Value

theorem Verdict.ofIntegers?_eq_some {v w : Value ε} {m n : IntegerView} (hv : v.integer? = some m)
    (hw : w.integer? = some n) (h : m.family = n.family)
    : ofIntegers? v w = some (answer (decide (m.val = n.val))) := by
  simp only [ofIntegers?, hv, hw, if_pos h, IntegerView.eq_iff h]

/-- Two operands with views of one family are equal exactly if the views are one number: two scalars
because their words wrap apart, and the others by the views themselves.
-/
theorem equal_iff_of_integer? {v w : Value ε} {m n : IntegerView}
    (hv : v.resolve.integer? = some m) (hw : w.resolve.integer? = some n)
    (h : m.family = n.family)
    : equal v w = true ↔ m.val = n.val := by
  have hviews := Verdict.ofIntegers?_eq_some hv hw h
  rw [equal_eq_holds]
  rcases Value.cases_of_integer? hv with ⟨k, x, hx, hk, hm⟩ | ⟨x, hx⟩ <;>
    rcases Value.cases_of_integer? hw with ⟨l, y, hy, hl, hn⟩ | ⟨y, hy⟩ <;>
    rw [hx, hy] at hviews ⊢
  case inl.inl =>
    have hsigned : k.isSigned = l.isSigned := IntKind.isSigned_eq (hk ▸ hl ▸ h)
    have hwords : Scalar.equal ⟨.int k, x⟩ ⟨.int l, y⟩ = decide (x.val = y.val) := by
      simp only [Scalar.equal_int_int, Word.wrap_val_eq_wrap_val_iff hsigned]
    simp [Verdict.ofShapes, hwords, hm, hn]
  all_goals simp [Verdict.ofShapes, hviews]

theorem Value.SameInteger.equal {v w : Value ε} (h : v.SameInteger w)
    : DynamicOps.equal v w = true := by
  obtain ⟨m, n, hm, hn, hfamily, hval⟩ := h
  exact (equal_iff_of_integer? hm hn hfamily).mpr hval

namespace Verdict

theorem exists_views_of_holds {v w : Value ε}
    (h : ((ofIntegers? v w).getD (answer false)).holds = true)
    : ∃ m n, v.integer? = some m ∧ w.integer? = some n ∧ m.family = n.family ∧ m.val = n.val := by
  unfold ofIntegers? at h
  split at h
  next m n hm hn =>
    split at h
    next hfamily =>
      have hmn : m = n := by simpa using h
      exact ⟨m, n, hm, hn, hfamily, (IntegerView.eq_iff hfamily).mp hmn⟩
    next => cases h
  next => cases h

/-- Nothing but its view decides an extension's equality to a value that is none, by cases on the
value.
-/
theorem ofShapes_extension {x : ε} {v : Value ε} (hv : ∀ y, v ≠ .extension y)
    : ofShapes (.extension x) v = (ofIntegers? (.extension x) v).getD (answer false) := by
  cases v with
  | extension y => exact absurd rfl (hv y)
  | scalar t => rfl
  | nil | array _ | list _ | record _ | ref _ =>
      rw [ofIntegers?_of_right rfl]
      rfl

end Verdict

theorem equal_extension_iff {x : ε} {v : Value ε} (hv : ∀ y, v ≠ .extension y)
    : equal (.extension x) v = true ↔ (Value.extension x).SameInteger v := by
  constructor
  · intro h
    have hresolved (y : ε) : v.resolve ≠ .extension y := fun hy =>
      hv y (Value.resolve_eq_extension_iff.mp hy)
    rw [equal_eq_holds] at h
    change (Verdict.ofShapes (.extension x) v.resolve).holds = true at h
    rw [Verdict.ofShapes_extension hresolved] at h
    exact Verdict.exists_views_of_holds h
  · exact Value.SameInteger.equal

/-- Operands with integer views of one family are equal exactly if these are the same number, and an
extension is equal to a value that is none exactly if both have such views, on either side.
-/
theorem integer_views_compared (v w : Value ε) (x : ε)
    : (∀ m n, v.resolve.integer? = some m → w.resolve.integer? = some n → m.family = n.family →
          (equal v w = true ↔ m.val = n.val))
      ∧ ((∀ y, v ≠ .extension y) →
          (equal (.extension x) v = true ↔ (Value.extension x).SameInteger v)
          ∧ (equal v (.extension x) = true ↔ (Value.extension x).SameInteger v)) := by
  refine ⟨fun m n => equal_iff_of_integer?, fun hv => ?_⟩
  have hcomm : equal (.extension x) v = equal v (.extension x) :=
    equal_comm_of_members_eq_nil rfl fun _ y _ => hv y
  have hiff : equal (.extension x) v = true ↔ (Value.extension x).SameInteger v :=
    equal_extension_iff hv
  exact ⟨hiff, hcomm ▸ hiff⟩

/-- An extension beyond 64 bits is equal to another one of its number although their own equality
tells them apart, and a reference to a number is equal to an extension of it.
-/
theorem integer_views_compared_wide
    : equal (.extension ⟨"money", "7", some (.unsigned 36893488147419103232)⟩ : Value Labelled)
          (.extension ⟨"tally", "8", some (.unsigned 36893488147419103232)⟩)
        = true
      ∧ equal
          (.ref (.present ⟨.int (.unsigned .w64), ⟨18446744073709551615, by decide, by decide⟩⟩))
          (.extension ⟨"money", "7", some (.unsigned 18446744073709551615)⟩ : Value Labelled)
        = true := by
  refine ⟨?_, ?_⟩
  · exact ((integer_views_compared _ _ ⟨"money", "7", none⟩).1 _ _ rfl rfl rfl).mpr rfl
  · exact ((integer_views_compared _ .nil _).2 (by simp)).2.mpr ⟨_, _, rfl, rfl, rfl, rfl⟩

end DynamicOps
