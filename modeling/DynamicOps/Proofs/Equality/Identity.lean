import DynamicOps.Proofs.Equality.Arrays
import DynamicOps.Proofs.Equality.IntegerViews
import DynamicOps.Proofs.Ordering.CommonKinds

/-!
Identity of values beside the equality operator. Identical values are equal, at any depth, as long
as no two extensions that are the same have different integers of one family. A value is equal to
itself exactly if it holds no scalar that is not a number and its extensions are the same as
themselves or have integers.
-/

namespace DynamicOps

namespace Scalar

theorem same_same_kind {k : Kind} (x y : k.Payload) : same ⟨k, x⟩ ⟨k, y⟩ = k.equal x y := by
  simp [same, related?]

theorem same_of_kind_ne {s t : Scalar} (h : s.kind ≠ t.kind) : s.same t = false := by
  simp [same, related?, h]

theorem same_comm (s t : Scalar) : s.same t = t.same s := by
  by_cases h : s.kind = t.kind
  · obtain ⟨k, x⟩ := s
    obtain ⟨l, y⟩ := t
    cases h
    rw [same_same_kind, same_same_kind, Kind.equal_comm]
  · rw [same_of_kind_ne h, same_of_kind_ne (Ne.symm h)]

/-- Identical scalars have one kind, in which they are compared natively. -/
theorem equal_of_same {s t : Scalar} (h : s.same t = true) : s.equal t = true := by
  by_cases hkind : s.kind = t.kind
  · obtain ⟨k, x⟩ := s
    obtain ⟨l, y⟩ := t
    cases hkind
    rwa [equal_same_kind, ← same_same_kind]
  · rw [same_of_kind_ne hkind] at h
    cases h

theorem equal_self_iff (s : Scalar) : s.equal s = true ↔ s.isNaN = false := by
  obtain ⟨_ | p | _ | _ | _ | _, x⟩ := s
  case float =>
    rw [equal_same_kind, Kind.equal_iff]
    cases x <;> simp [Kind.key?, Binary.key?, isNaN]
  all_goals simp [equal_same_kind, Kind.equal, isNaN]

end Scalar

theorem Reference.same_comm (r t : Reference) : r.same t = t.same r := by
  cases r <;> cases t
  case nil.nil => simp [same, eq_comm]
  case present.present => exact Scalar.same_comm _ _
  all_goals rfl

variable {ε : Type}

namespace Value

/-- The scalars of a value: itself, the target of a reference, or the elements of an array. -/
def scalars : Value ε → List Scalar
  | scalar s | ref (.present s) => [s]
  | array a => a.toScalars
  | _ => []

/-- No scalar of the value, nor of what occurs in it, is a payload that is not a number. -/
def NaNFree (v : Value ε) : Prop :=
  ∀ u : Value ε, u.Occurs v → ∀ s ∈ u.scalars, s.isNaN = false

theorem naNFree_iff {v : Value ε}
    : v.NaNFree ↔ (∀ s ∈ v.scalars, s.isNaN = false) ∧ ∀ w ∈ v.members, w.NaNFree :=
  forall_occurs_iff

/-- The extension occurs in the value. -/
def HasExtension (v : Value ε) (x : ε) : Prop :=
  (extension x).Occurs v

variable [Extension ε]

/-- Lists are identical when they are item by item, by induction over the items. -/
theorem same_list_list (xs ys : List (Value ε))
    : (list xs).same (list ys) = true ↔ List.Forall₂ (fun x y => x.same y = true) xs ys := by
  rw [same]
  induction xs generalizing ys with
  | nil => cases ys <;> simp [sameItems]
  | cons x xs ih =>
      cases ys with
      | nil => simp [sameItems]
      | cons y ys => simp [sameItems, ih]

/-- Records are identical when they are field by field, by induction over the fields. -/
theorem same_record_record (xs ys : List (String × Value ε))
    : (record xs).same (record ys) = true
      ↔ List.Forall₂ (fun f g => f.1 = g.1 ∧ f.2.same g.2 = true) xs ys := by
  rw [same]
  induction xs generalizing ys with
  | nil => cases ys <;> simp [sameFields]
  | cons x xs ih =>
      cases ys with
      | nil => simp [sameFields]
      | cons y ys => simp [sameFields, ih]

end Value

variable [Extension ε]

/-- Two extensions do not have different integers of one family. -/
def AgreeingViews (x y : ε) : Prop :=
  ∀ m n, Extension.integer? x = some m → Extension.integer? y = some n →
    m.family = n.family → m.val = n.val

/-- Extensions that are the same are equal, by their integers if they have them in one family. -/
theorem equal_extension_of_equals {x y : ε} (hviews : AgreeingViews x y)
    (h : Extension.equals x y = true)
    : equal (.extension x : Value ε) (.extension y) = true := by
  rw [equal_eq_holds]
  change ((Verdict.ofIntegers? (.extension x) (.extension y)).getD
    (.answer (Extension.equals x y))).holds = true
  unfold Verdict.ofIntegers?
  split
  next m n hm hn =>
    split
    next hfamily =>
      have hmn : m = n := (IntegerView.eq_iff hfamily).mpr (hviews m n hm hn hfamily)
      simp [hmn]
    next => exact h
  next => exact h

/-- Identical values are equal, by induction over the members of the left one. -/
theorem equal_of_same {a b : Value ε}
    (hviews
      : ∀ x y, a.HasExtension x → b.HasExtension y → Extension.equals x y = true →
          AgreeingViews x y)
    (h : a.same b = true)
    : equal a b = true := by
  induction a using Value.members_induction generalizing b with
  | step a ih =>
      have hmembers {v w : Value ε} (hv : v ∈ a.members) (hw : w ∈ b.members)
          (hvw : v.same w = true)
          : equal v w = true :=
        ih v hv (fun x y hx hy => hviews x y (.member hv hx) (.member hw hy)) hvw
      cases a <;> cases b
      case nil.nil => exact equal_eq_holds _ _
      case scalar.scalar s t =>
        rw [equal_scalar_scalar]
        exact Scalar.equal_of_same h
      case array.array a b =>
        rw [equal_eq_holds]
        exact h
      case list.list xs ys =>
        rw [Value.same_list_list] at h
        rw [equal_list_list]
        exact forall₂_imp_of_mem (fun x hx y hy => hmembers hx hy) h
      case record.record xs ys =>
        rw [Value.same_record_record] at h
        rw [equal_record_record]
        refine forall₂_imp_of_mem (fun f hf g hg => And.imp_right ?_) h
        exact hmembers (List.mem_map_of_mem hf) (List.mem_map_of_mem hg)
      case ref.ref r t =>
        rw [equal_eq_holds]
        cases r <;> cases t
        case nil.nil => rfl
        case present.present s t => exact Scalar.equal_of_same h
        all_goals cases h
      case extension.extension x y =>
        exact equal_extension_of_equals (hviews x y .self .self h) h
      all_goals cases h

/-- Extensions that are the same differ as operands if their integers do. -/
example
    : (.extension ⟨"money", "7", some (.signed 7)⟩ : Value Labelled).same
          (.extension ⟨"money", "7", some (.signed 8)⟩)
        = true
      ∧ equal (.extension ⟨"money", "7", some (.signed 7)⟩ : Value Labelled)
          (.extension ⟨"money", "7", some (.signed 8)⟩)
        = false := by
  decide +kernel

/-- Identity does not depend on the order of two values if that of their extensions does not, by
induction over the members of the left one.
-/
theorem Value.same_comm {a b : Value ε}
    (hext
      : ∀ x y, a.HasExtension x → b.HasExtension y →
          Extension.equals x y = Extension.equals y x)
    : a.same b = b.same a := by
  induction a using Value.members_induction generalizing b with
  | step a ih =>
      have hmembers {v w : Value ε} (hv : v ∈ a.members) (hw : w ∈ b.members)
          : v.same w = w.same v :=
        ih v hv fun x y hx hy => hext x y (.member hv hx) (.member hw hy)
      cases a <;> cases b
      case scalar.scalar s t => exact Scalar.same_comm s t
      case array.array a b => exact TypedArray.same_comm a b
      case list.list xs ys =>
        rw [Bool.eq_iff_iff, same_list_list, same_list_list, ← forall₂_flip_iff]
        refine forall₂_congr_of_mem fun y hy x hx => ?_
        rw [flip, hmembers hx hy]
      case record.record xs ys =>
        rw [Bool.eq_iff_iff, same_record_record, same_record_record, ← forall₂_flip_iff]
        refine forall₂_congr_of_mem fun g hg f hf => ?_
        rw [flip, eq_comm, hmembers (List.mem_map_of_mem hf) (List.mem_map_of_mem hg)]
      case ref.ref r t => exact Reference.same_comm r t
      case extension.extension x y => exact hext x y .self .self
      all_goals rfl

theorem equal_extension_self_iff (x : ε)
    : equal (.extension x : Value ε) (.extension x) = true
      ↔ (Extension.integer? x).isSome = true ∨ Extension.equals x x = true := by
  rw [equal_eq_holds]
  change ((Verdict.ofIntegers? (.extension x) (.extension x)).getD
    (.answer (Extension.equals x x))).holds = true ↔ _
  unfold Verdict.ofIntegers?
  cases h : Extension.integer? x <;> simp [Value.integer?, h]

theorem equal_array_self_iff (a : TypedArray)
    : equal (.array a : Value ε) (.array a) = true ↔ ∀ s ∈ a.toScalars, s.isNaN = false := by
  rw [equal_array_array_of_kind_eq rfl, equal_list_list, List.forall₂_same]
  simp [TypedArray.values, Scalar.equal_self_iff]

/-- A value is equal to itself if its scalars are numbers, its members are equal to themselves, and
it is no extension without an integer that is not the same as itself.
-/
theorem equal_self_iff_members (v : Value ε)
    : equal v v = true
      ↔ (∀ s ∈ v.scalars, s.isNaN = false)
        ∧ (∀ x, v = .extension x →
            (Extension.integer? x).isSome = true ∨ Extension.equals x x = true)
        ∧ ∀ w ∈ v.members, equal w w = true := by
  cases v with
  | nil => simp [equal_eq_holds, Value.resolve, Verdict.ofShapes, Value.scalars, Value.members]
  | scalar s => simp [Scalar.equal_self_iff, Value.scalars, Value.members]
  | array a => simp [equal_array_self_iff, Value.scalars, Value.members]
  | list items => simp [equal_list_list, List.forall₂_same, Value.scalars, Value.members]
  | record fields =>
      simp only [equal_record_record, List.forall₂_same, true_and, Value.scalars, Value.members,
        List.not_mem_nil, false_implies, implies_true, reduceCtorEq, List.forall_mem_map]
  | ref r =>
      rw [equal_eq_holds]
      cases r with
      | nil k => simp [Value.resolve, Verdict.ofShapes, Value.scalars, Value.members]
      | present s =>
          change s.equal s = true ↔ _
          simp [Scalar.equal_self_iff, Value.scalars, Value.members]
  | extension x => simp [equal_extension_self_iff, Value.scalars, Value.members]

/-- A value is equal to itself exactly if it has no scalar that is not a number, and no extension
without an integer that is not the same as itself. By induction over the members.
-/
theorem equal_self_iff (v : Value ε)
    : equal v v = true
      ↔ v.NaNFree
        ∧ ∀ x, v.HasExtension x →
            (Extension.integer? x).isSome = true ∨ Extension.equals x x = true := by
  have hoccurs : equal v v = true
      ↔ ∀ u : Value ε, u.Occurs v →
          (∀ s ∈ u.scalars, s.isNaN = false)
          ∧ ∀ x, u = .extension x →
              (Extension.integer? x).isSome = true ∨ Extension.equals x x = true := by
    induction v using Value.members_induction with
    | step v ih =>
        rw [equal_self_iff_members, Value.forall_occurs_iff, and_assoc]
        exact and_congr_right' (and_congr_right' (forall₂_congr ih))
  rw [hoccurs]
  constructor
  · intro h
    exact ⟨fun u hu => (h u hu).1, fun x hx => (h _ hx).2 x rfl⟩
  · rintro ⟨hnumbers, hextensions⟩ u hu
    refine ⟨hnumbers u hu, ?_⟩
    rintro x rfl
    exact hextensions x hu

/-- Identity implies equality, unless extensions that are the same have different integers; it is
symmetric if it is so on extensions; and a value without a payload that is not a number is equal to
itself if its extensions are the same as themselves. Only what occurs in the values is asked of.
-/
theorem identity_refines_equality (a b : Value ε)
    : ((∀ x y, a.HasExtension x → b.HasExtension y → Extension.equals x y = true →
            AgreeingViews x y) →
          a.same b = true → equal a b = true)
      ∧ ((∀ x y, a.HasExtension x → b.HasExtension y →
            Extension.equals x y = Extension.equals y x) →
          a.same b = b.same a)
      ∧ (a.NaNFree → (∀ x, a.HasExtension x → Extension.equals x x = true) →
          equal a a = true) := by
  refine ⟨equal_of_same, Value.same_comm, ?_⟩
  intro hnumbers hextensions
  exact (equal_self_iff a).mpr ⟨hnumbers, fun x hx => .inr (hextensions x hx)⟩

/-- Lists of an extension with an integer and of the zeros of either sign are identical, hence
equal, to each other and to themselves.
-/
theorem identity_refines_equality_zeros
    : (.list [.extension ⟨"money", "7", some (.signed 7)⟩, .scalar (.ofBinary (.ofInt 0))]
          : Value Labelled).same
          (.list [.extension ⟨"money", "7", some (.signed 7)⟩,
            .scalar (.ofBinary (.negate (.ofInt 0)))])
        = true
      ∧ equal
          (.list [.extension ⟨"money", "7", some (.signed 7)⟩, .scalar (.ofBinary (.ofInt 0))]
            : Value Labelled)
          (.list [.extension ⟨"money", "7", some (.signed 7)⟩,
            .scalar (.ofBinary (.negate (.ofInt 0)))])
        = true
      ∧ equal
          (.list [.extension ⟨"money", "7", some (.signed 7)⟩, .scalar (.ofBinary (.ofInt 0))]
            : Value Labelled)
          (.list [.extension ⟨"money", "7", some (.signed 7)⟩, .scalar (.ofBinary (.ofInt 0))])
        = true := by
  have hmoney {x y : Labelled} {s : Scalar}
      (h : (.list [.extension y, .scalar s] : Value Labelled).HasExtension x)
      : x = y := by
    obtain hself | ⟨w, hw, h⟩ := Value.occurs_iff.mp h
    · cases hself
    · simp only [Value.members, List.mem_cons, List.not_mem_nil, or_false] at hw
      rcases hw with rfl | rfl <;> obtain hself | ⟨_, hnil, _⟩ := Value.occurs_iff.mp h
      · exact Value.extension.inj hself
      all_goals first | cases hself | cases hnil
  have hnumbers
      : (.list [.extension ⟨"money", "7", some (.signed 7)⟩, .scalar (.ofBinary (.ofInt 0))]
          : Value Labelled).NaNFree := by
    simp only [Value.naNFree_iff (v := .list _), Value.scalars, Value.members,
      List.forall_mem_cons, List.not_mem_nil, false_implies, implies_true, and_true, true_and]
    refine ⟨Value.naNFree_iff.mpr ⟨by simp [Value.scalars], by simp [Value.members]⟩,
      Value.naNFree_iff.mpr ⟨?_, by simp [Value.members]⟩⟩
    decide +kernel
  obtain ⟨hequal, -, hself⟩ := identity_refines_equality
    (.list [.extension ⟨"money", "7", some (.signed 7)⟩, .scalar (.ofBinary (.ofInt 0))]
      : Value Labelled)
    (.list [.extension ⟨"money", "7", some (.signed 7)⟩,
      .scalar (.ofBinary (.negate (.ofInt 0)))])
  refine ⟨by decide +kernel, hequal ?_ (by decide +kernel), hself hnumbers ?_⟩
  · intro x y hx hy _ m n hm hn _
    obtain rfl := hmoney hx
    obtain rfl := hmoney hy
    rw [Option.some.inj (hm.symm.trans hn)]
  · intro x hx
    obtain rfl := hmoney hx
    rfl

end DynamicOps
