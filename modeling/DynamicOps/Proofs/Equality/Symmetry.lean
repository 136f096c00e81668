import DynamicOps.Proofs.Equality.Level
import DynamicOps.Proofs.Value.Members
import DynamicOps.Value.Labelled

/-!
Symmetry of the equality operator. Every level answers in either order alike, up to the equality
of extensions, and lists and records compare member by member in either order.
-/

namespace DynamicOps

/-- Sequences of payloads are equal in either order, by induction over both. -/
theorem Kind.equalItems_comm (k : Kind) (xs ys : List k.Payload)
    : k.equalItems xs ys = k.equalItems ys xs := by
  induction xs generalizing ys with
  | nil => cases ys <;> rfl
  | cons x xs ih =>
      cases ys with
      | nil => rfl
      | cons y ys => rw [equalItems, equalItems, Kind.equal_comm, ih]

theorem TypedArray.same_comm (a b : TypedArray) : a.same b = b.same a := by
  obtain ⟨k, xs⟩ := a
  obtain ⟨l, ys⟩ := b
  by_cases h : k = l
  · subst h
    simp [same, equal?, Kind.equalItems_comm]
  · simp [same, equal?, h, Ne.symm h]

namespace Verdict

variable {ε : Type} [Extension ε]

/-- Integer views compare in either order alike. -/
theorem ofIntegers?_comm (lhs rhs : Value ε) : ofIntegers? lhs rhs = ofIntegers? rhs lhs := by
  unfold ofIntegers?
  cases lhs.integer? with
  | none => cases rhs.integer? <;> rfl
  | some a =>
      cases rhs.integer? with
      | none => rfl
      | some b => simp only [eq_comm]

/-- The verdicts on two shapes hold in either order alike if equality of the left one's members
does not depend on the order, nor that of the two if they are extensions, by cases on both.
-/
theorem holds_ofShapes_comm_of {lhs rhs : Value ε}
    (hext
      : ∀ x y, lhs = .extension x → rhs = .extension y →
          Extension.equals x y = Extension.equals y x)
    (hmembers : ∀ v ∈ lhs.members, ∀ w, equal v w = equal w v)
    : (ofShapes lhs rhs).holds = (ofShapes rhs lhs).holds := by
  cases lhs <;> cases rhs
  case scalar.scalar s t => exact Scalar.equal_comm s t
  case array.array a b => exact TypedArray.same_comm a b
  case list.list xs ys =>
    rw [Bool.eq_iff_iff, ofShapes, ofShapes, holds_ofItems, holds_ofItems, ← forall₂_flip_iff]
    refine forall₂_congr_of_mem fun y _ x hx => ?_
    rw [flip, hmembers x hx y]
  case record.record xs ys =>
    rw [Bool.eq_iff_iff, ofShapes, ofShapes, holds_ofFields, holds_ofFields, ← forall₂_flip_iff]
    refine forall₂_congr_of_mem fun g _ f hf => ?_
    rw [flip, eq_comm, hmembers f.2 (List.mem_map_of_mem hf) g.2]
  case extension.extension x y =>
    simp only [ofShapes, ofIntegers?_comm (.extension x) (.extension y), hext x y rfl rfl]
  case scalar.extension | extension.scalar => simp only [ofShapes, ofIntegers?_comm]
  -- An array and a list compare as the list's items in both orders; other shapes never are equal.
  all_goals rfl

theorem holds_ofShapes_comm
    (hext : ∀ x y : ε, Extension.equals x y = Extension.equals y x) {lhs rhs : Value ε}
    (hmembers : ∀ v ∈ lhs.members, ∀ w, equal v w = equal w v)
    : (ofShapes lhs rhs).holds = (ofShapes rhs lhs).holds :=
  holds_ofShapes_comm_of (fun x y _ _ => hext x y) hmembers

end Verdict

variable {ε : Type} [Extension ε]

omit [Extension ε] in
/-- Only an extension resolves to one, since references are to scalars. -/
theorem Value.resolve_eq_extension_iff {v : Value ε} {x : ε}
    : v.resolve = .extension x ↔ v = .extension x := by
  rcases v with _ | _ | _ | _ | _ | (_ | _) | _ <;> simp [resolve]

/-- A value without members compares with any other in either order alike, whatever the equality of
extensions, unless both are extensions.
-/
theorem equal_comm_of_members_eq_nil {v w : Value ε} (hv : v.members = [])
    (hext : ∀ x y, v = .extension x → w ≠ .extension y)
    : equal v w = equal w v := by
  rw [equal_eq_holds v w, equal_eq_holds w v]
  refine Verdict.holds_ofShapes_comm_of ?_ ?_
  · intro x y hx hy
    exact absurd (Value.resolve_eq_extension_iff.mp hy)
      (hext x y (Value.resolve_eq_extension_iff.mp hx))
  · intro u hu
    rw [Value.members_resolve, hv] at hu
    cases hu

/-- Operator equality of two values does not depend on their order if that of extensions does
not, by induction over the members of the left value.
-/
theorem equality_symmetric (hext : ∀ x y : ε, Extension.equals x y = Extension.equals y x)
    (a b : Value ε)
    : equal a b = equal b a := by
  induction a using Value.members_induction generalizing b with
  | step a ih =>
      rw [equal_eq_holds a b, equal_eq_holds b a]
      refine Verdict.holds_ofShapes_comm hext fun v hv w => ih v ?_ w
      rwa [Value.members_resolve] at hv

/-- Labelled extensions do not depend on the order, nor do lists that hold one of them beside a
number and a reference to it.
-/
theorem equality_symmetric_labelled
    : (∀ x y : Labelled, Extension.equals x y = Extension.equals y x)
      ∧ equal (.list [.extension ⟨"money", "7", some (.signed 7)⟩, .scalar (.ofBool true)])
          (.list [.scalar (.ofWord (.wrap 7)), .ref (.present (.ofBool true))] : Value Labelled)
        = true
      ∧ equal (.list [.scalar (.ofWord (.wrap 7)), .ref (.present (.ofBool true))])
          (.list [.extension ⟨"money", "7", some (.signed 7)⟩, .scalar (.ofBool true)] :
            Value Labelled)
        = true := by
  have hext (x y : Labelled) : Extension.equals x y = Extension.equals y x := by
    simp only [Extension.equals, Bool.beq_comm (a := x.view.isSome), eq_comm]
  have hright : equal
      (.list [.extension ⟨"money", "7", some (.signed 7)⟩, .scalar (.ofBool true)])
      (.list [.scalar (.ofWord (.wrap 7)), .ref (.present (.ofBool true))] : Value Labelled)
      = true := by
    decide +kernel
  refine ⟨hext, hright, ?_⟩
  rw [equality_symmetric hext]
  exact hright

end DynamicOps
