import DynamicOps.Proofs.Equality.Level
import DynamicOps.Value.Labelled

/-!
How far equality of scalars is transitive. Integers compare exactly among themselves and by their
places in double precision with floating numbers, where several integers share a place. So a
floating number can stand between two different integers, and nothing else breaks a chain.
-/

namespace DynamicOps

namespace Scalar

/-- The integer that a scalar of an integer kind holds. -/
def integer? : Scalar → Option Int
  | ⟨.int _, x⟩ => some x.val
  | _ => none

/-- Scalars with a floating number and two different integers among them. -/
def Bridged (scalars : List Scalar) : Prop :=
  (∃ s ∈ scalars, s.kind.isFloat = true)
  ∧ ∃ m ∈ scalars.filterMap integer?, ∃ n ∈ scalars.filterMap integer?, m ≠ n

instance (scalars : List Scalar) : Decidable (Bridged scalars) :=
  inferInstanceAs (Decidable (_ ∧ _))

theorem integer?_of_isFloat {s : Scalar} (h : s.kind.isFloat = true) : s.integer? = none := by
  obtain ⟨_ | _ | _ | _ | _ | _, x⟩ := s <;> first | cases h; done | rfl

theorem exists_word_of_integer? {s : Scalar} {n : Int} (h : s.integer? = some n)
    : ∃ k, ∃ x : Word k, s = ⟨.int k, x⟩ ∧ x.val = n := by
  obtain ⟨k | _ | _ | _ | _ | _, x⟩ := s
  case int => exact ⟨k, x, rfl, Option.some.inj h⟩
  all_goals cases h

/-- The same integers of different kinds have one place. -/
theorem place?_eq_of_integer? {s : Scalar} {n : Int} (h : s.integer? = some n)
    : s.place? = (Binary.ofInt n : Binary64).key? := by
  obtain ⟨k, x, rfl, rfl⟩ := exists_word_of_integer? h
  rfl

/-- A scalar with a place is an integer unless it is a floating number. -/
theorem exists_integer?_of_place? {s : Scalar} {r : Int} (hs : s.kind.isFloat = false)
    (h : s.place? = some r)
    : ∃ n, s.integer? = some n := by
  obtain ⟨k | _ | _ | _ | _ | _, x⟩ := s
  case int => exact ⟨x.val, rfl⟩
  case float => cases hs
  all_goals cases h

/-- A scalar equal to an integer is an integer unless it is a floating number, since canonical
forms keep integers apart.
-/
theorem exists_integer?_of_equal {s t : Scalar} {m : Int} (hs : s.integer? = some m)
    (ht : t.kind.isFloat = false) (h : s.equal t = true)
    : ∃ n, t.integer? = some n := by
  obtain ⟨k, x, rfl, rfl⟩ := exists_word_of_integer? hs
  rw [equal_iff_canonical_eq rfl ht] at h
  obtain ⟨l | _ | _ | _ | _ | _, y⟩ := t
  case int => exact ⟨y.val, rfl⟩
  case float => cases ht
  all_goals simp [canonical, ofWord] at h

theorem place?_eq_none {s : Scalar} (hs : s.kind.isFloat = false) (h : s.integer? = none)
    : s.place? = none := by
  obtain ⟨_ | _ | _ | _ | _ | _, x⟩ := s <;> first | cases h; done | cases hs; done | rfl

/-- Integers at one place are equal only when they are the same: integers that wrap to one word
without being the same lie on both sides of zero, and so do their places.
-/
theorem equal_iff_of_place?_eq {s t : Scalar} {m n : Int} (hs : s.integer? = some m)
    (ht : t.integer? = some n) (h : s.place? = t.place?)
    : s.equal t = true ↔ m = n := by
  obtain ⟨k, x, rfl, rfl⟩ := exists_word_of_integer? hs
  obtain ⟨l, y, rfl, rfl⟩ := exists_word_of_integer? ht
  have hequal : equal ⟨.int k, x⟩ ⟨.int l, y⟩ = true ↔ Word.wrap x.val = Word.wrap y.val := by
    rw [equal_int_int, decide_eq_true_iff]
  rw [hequal]
  constructor
  · intro hwrap
    obtain ⟨i, hi, hipos, hineg⟩ := Binary.exists_key?_ofInt x.val
    obtain ⟨j, hj, hjpos, hjneg⟩ := Binary.exists_key?_ofInt y.val
    have hij : i = j := Option.some.inj (hi.symm.trans (h.trans hj))
    -- Integers on both sides of zero may wrap to one word, but their places differ.
    rcases Word.val_eq_or_opposite_of_wrap_eq hwrap with hval | ⟨hx, hy⟩ | ⟨hx, hy⟩
    · exact hval
    · have := hineg hx
      have := hjpos hy
      omega
    · have := hipos hx
      have := hjneg hy
      omega
  · intro hval
    rw [hval]

/-- Equal scalars have one place unless they are different integers, by cases on which of them are
floating numbers.
-/
theorem place?_eq_of_equal {s t : Scalar} (h : s.equal t = true)
    (hsame : ∀ m n, s.integer? = some m → t.integer? = some n → m = n)
    : s.place? = t.place? := by
  cases hs : s.kind.isFloat with
  | true =>
      obtain ⟨r, hsr, htr⟩ := (equal_iff_place? hs).mp h
      rw [hsr, htr]
  | false =>
      cases ht : t.kind.isFloat with
      | true =>
          rw [equal_comm] at h
          obtain ⟨r, htr, hsr⟩ := (equal_iff_place? ht).mp h
          rw [hsr, htr]
      | false =>
          cases hm : s.integer? with
          | some m =>
              obtain ⟨n, hn⟩ := exists_integer?_of_equal hm ht h
              rw [place?_eq_of_integer? hm, place?_eq_of_integer? hn, hsame m n hm hn]
          | none =>
              -- Neither of the two is a number, and so neither has a place.
              have hn : t.integer? = none := by
                rw [Option.eq_none_iff_forall_ne_some]
                intro n hn
                rw [equal_comm] at h
                obtain ⟨m, hm'⟩ := exists_integer?_of_equal hn hs h
                rw [hm] at hm'
                cases hm'
              rw [place?_eq_none hs hm, place?_eq_none ht hn]

/-- Scalars at one place are equal unless they are different integers, by cases on which of them
are floating numbers.
-/
theorem equal_of_place?_eq {s t : Scalar} {r : Int} (hs : s.place? = some r)
    (ht : t.place? = some r)
    (hsame : ∀ m n, s.integer? = some m → t.integer? = some n → m = n)
    : s.equal t = true := by
  cases hsfloat : s.kind.isFloat with
  | true => exact (equal_iff_place? hsfloat).mpr ⟨r, hs, ht⟩
  | false =>
      cases htfloat : t.kind.isFloat with
      | true =>
          rw [equal_comm]
          exact (equal_iff_place? htfloat).mpr ⟨r, ht, hs⟩
      | false =>
          obtain ⟨m, hm⟩ := exists_integer?_of_place? hsfloat hs
          obtain ⟨n, hn⟩ := exists_integer?_of_place? htfloat ht
          exact (equal_iff_of_place?_eq hm hn (hs.trans ht.symm)).mpr (hsame m n hm hn)

/-- Scalars that all are equal to each other are not bridged, since the floating number would have
both integers at its place.
-/
theorem not_bridged_of_pairwise {scalars : List Scalar}
    (hscalars : scalars.Pairwise fun x y => x.equal y = true)
    : ¬ Bridged scalars := by
  have : Std.Symm fun x y : Scalar => x.equal y = true := ⟨fun x y h => by rwa [equal_comm]⟩
  rintro ⟨⟨f, hf, hfloat⟩, m, hm, n, hn, hne⟩
  obtain ⟨x, hx, hxm⟩ := List.mem_filterMap.mp hm
  obtain ⟨y, hy, hyn⟩ := List.mem_filterMap.mp hn
  have hplace {z : Scalar} {k : Int} (hz : z ∈ scalars) (hzk : z.integer? = some k)
      : z.place? = f.place? := by
    have hfz : f ≠ z := by
      rintro rfl
      simp [integer?_of_isFloat hfloat] at hzk
    obtain ⟨r, hfr, hzr⟩ := (equal_iff_place? hfloat).mp (hscalars.forall hf hz hfz)
    rw [hfr, hzr]
  have hxy : x ≠ y := by
    rintro rfl
    exact hne (Option.some.inj (hxm.symm.trans hyn))
  have hxyplace : x.place? = y.place? := (hplace hx hxm).trans (hplace hy hyn).symm
  exact hne ((equal_iff_of_place?_eq hxm hyn hxyplace).mp (hscalars.forall hx hy hxy))

/-- A chain of three scalars that are not bridged closes: without floating numbers by canonical
forms, and otherwise by the one place of all three.
-/
theorem equal_of_not_bridged {s t u : Scalar} (hst : s.equal t = true) (htu : t.equal u = true)
    (h : ¬ Bridged [s, t, u])
    : s.equal u = true := by
  by_cases hfloat : ∃ x ∈ [s, t, u], x.kind.isFloat = true
  · have hsame {x y : Scalar} (hx : x ∈ [s, t, u]) (hy : y ∈ [s, t, u]) (m n : Int)
        (hm : x.integer? = some m) (hn : y.integer? = some n)
        : m = n := by
      by_contra hne
      exact h ⟨hfloat, m, List.mem_filterMap.mpr ⟨x, hx, hm⟩, n,
        List.mem_filterMap.mpr ⟨y, hy, hn⟩, hne⟩
    have hst' : s.place? = t.place? := place?_eq_of_equal hst (hsame (by simp) (by simp))
    have htu' : t.place? = u.place? := place?_eq_of_equal htu (hsame (by simp) (by simp))
    obtain ⟨r, hr⟩ : ∃ r, t.place? = some r := by
      simp only [List.mem_cons, List.not_mem_nil, or_false, exists_eq_or_imp,
        exists_eq_left] at hfloat
      rcases hfloat with hs | ht | hu
      · obtain ⟨r, _, htr⟩ := (equal_iff_place? hs).mp hst
        exact ⟨r, htr⟩
      · obtain ⟨r, htr, _⟩ := (equal_iff_place? ht).mp htu
        exact ⟨r, htr⟩
      · rw [equal_comm] at htu
        obtain ⟨r, _, htr⟩ := (equal_iff_place? hu).mp htu
        exact ⟨r, htr⟩
    exact equal_of_place?_eq (hst'.trans hr) (htu'.symm.trans hr) (hsame (by simp) (by simp))
  · have hdiscrete {x : Scalar} (hx : x ∈ [s, t, u]) : x.kind.isFloat = false := by
      rw [← Bool.not_eq_true]
      exact fun hxfloat => hfloat ⟨x, hx, hxfloat⟩
    have hs : s.kind.isFloat = false := hdiscrete (by simp)
    have ht : t.kind.isFloat = false := hdiscrete (by simp)
    have hu : u.kind.isFloat = false := hdiscrete (by simp)
    rw [equal_iff_canonical_eq hs hu]
    rw [equal_iff_canonical_eq hs ht] at hst
    rw [equal_iff_canonical_eq ht hu] at htu
    exact hst.trans htu

end Scalar

variable {ε : Type} [Extension ε]

/-- A chain of equal scalars closes exactly when no floating number stands beside two different
integers in it.
-/
theorem equality_transitive_iff {s t u : Scalar}
    (hst : equal (.scalar s : Value ε) (.scalar t) = true)
    (htu : equal (.scalar t : Value ε) (.scalar u) = true)
    : equal (.scalar s : Value ε) (.scalar u) = true ↔ ¬ Scalar.Bridged [s, t, u] := by
  rw [equal_scalar_scalar] at hst htu ⊢
  refine ⟨fun hsu => Scalar.not_bridged_of_pairwise ?_, Scalar.equal_of_not_bridged hst htu⟩
  simp [hst, htu, hsu]

/-- A chain of one number in three kinds closes. -/
theorem equality_transitive_iff_seven
    : equal (.scalar ⟨.int (.unsigned .w8), ⟨7, by decide, by decide⟩⟩ : Value Labelled)
          (.scalar (.ofBinary (.ofInt 7)))
        = true
      ∧ equal (.scalar (.ofBinary (.ofInt 7)) : Value Labelled) (.scalar (.ofWord (.wrap 7)))
        = true
      ∧ equal (.scalar ⟨.int (.unsigned .w8), ⟨7, by decide, by decide⟩⟩ : Value Labelled)
          (.scalar (.ofWord (.wrap 7)))
        = true := by
  have hst : equal (.scalar ⟨.int (.unsigned .w8), ⟨7, by decide, by decide⟩⟩ : Value Labelled)
      (.scalar (.ofBinary (.ofInt 7)))
      = true := by
    decide +kernel
  have htu : equal (.scalar (.ofBinary (.ofInt 7)) : Value Labelled) (.scalar (.ofWord (.wrap 7)))
      = true := by
    decide +kernel
  exact ⟨hst, htu, (equality_transitive_iff hst htu).mpr (by decide +kernel)⟩

/-- Above the integers that double precision represents, a floating number equals two neighbours
that are not equal to each other.
-/
theorem equality_not_transitive
    : equal (.scalar (.ofWord (.wrap 9007199254740993)) : Value Labelled)
          (.scalar (.ofBinary (.ofInt 9007199254740992)))
        = true
      ∧ equal (.scalar (.ofBinary (.ofInt 9007199254740992)) : Value Labelled)
          (.scalar (.ofWord (.wrap 9007199254740992)))
        = true
      ∧ equal (.scalar (.ofWord (.wrap 9007199254740993)) : Value Labelled)
          (.scalar (.ofWord (.wrap 9007199254740992)))
        = false := by
  decide +kernel

end DynamicOps
