import DynamicOps.Proofs.Equality.Scalars
import DynamicOps.Proofs.Operation.Cases
import DynamicOps.Proofs.Ordering.Keys

/-!
The kind that two scalars are compared in. Orderings and equality have one body for two scalars in
either order, and it relates them as payloads of one kind, whatever the relation.
-/

namespace DynamicOps

theorem equalityBody?_of_orderingBody? {k l : Kind} {body : Body}
    (h : orderingBody? k l = some body)
    : equalityBody? (.scalar k) (.scalar l) = some body := by
  unfold orderingBody? at h
  split at h
  · cases h
  · exact h

/-- The body of two kinds does not depend on their order, since the lattice's domain does not. -/
theorem orderingBody?_comm (k l : Kind) : orderingBody? k l = orderingBody? l k := by
  by_cases hkl : k = l
  · rw [hkl]
  · have hequal
        : equalityBody? (.scalar k) (.scalar l) = equalityBody? (.scalar l) (.scalar k) := by
      simp only [equalityBody?, if_neg hkl, if_neg (Ne.symm hkl), Bool.and_comm k.isNumeric,
        promote_comm .equal k]
    have hbool {j : Kind} (hj : .bool ≠ j)
        : equalityBody? (.scalar .bool) (.scalar j) = none := by
      simp [equalityBody?, hj, Kind.isNumeric, Kind.isInteger, Kind.isFloat]
    unfold orderingBody?
    by_cases hk : k = .bool
    · subst hk
      rw [if_pos rfl, if_neg (Ne.symm hkl), ← hequal, hbool hkl]
    · rw [if_neg hk]
      by_cases hl : l = .bool
      · subst hl
        rw [if_pos rfl, hequal, hbool (Ne.symm hkl)]
      · rw [if_neg hl, hequal]

/-- A body relates two scalars in the other order by the opposite relation. -/
theorem relate?_swap (rel : PayloadRelation) (body : Body) (s t : Scalar)
    : body.relate? rel t s = body.relate? (fun k x y => rel k y x) s t := by
  obtain ⟨k, x⟩ := s
  obtain ⟨l, y⟩ := t
  cases body with
  | native =>
      by_cases hkl : k = l
      · subst hkl
        simp [Body.relate?, Scalar.related?]
      · simp [Body.relate?, Scalar.related?, hkl, Ne.symm hkl]
  | promote domain =>
      simp only [Body.relate?]
      unfold Scalar.relatedIn?
      split
      · cases Scalar.toWord? ⟨k, x⟩ <;> cases Scalar.toWord? ⟨l, y⟩ <;> rfl
      · cases Scalar.toWord? ⟨k, x⟩ <;> cases Scalar.toWord? ⟨l, y⟩ <;> rfl
      · cases Scalar.toBinary? ⟨k, x⟩ <;> cases Scalar.toBinary? ⟨l, y⟩ <;> rfl
      · rfl
  | concat | shift | elapsed | checked | elementwise | swapped => rfl

/-- Equality has a body for two kinds when they are one kind or both are numeric. -/
theorem equalityBody?_scalars_cases {k l : Kind} {body : Body}
    (h : equalityBody? (.scalar k) (.scalar l) = some body)
    : k = l ∧ body = .native
      ∨ k ≠ l ∧ k.isNumeric = true ∧ l.isNumeric = true
        ∧ ∃ domain, promote .equal k l = some domain ∧ body = .promote domain := by
  simp only [equalityBody?] at h
  split at h
  next hkl =>
    cases h
    exact .inl ⟨hkl, rfl⟩
  next hkl =>
    split at h
    next hnumeric =>
      obtain ⟨hk, hl⟩ := Bool.and_eq_true_iff.mp hnumeric
      obtain ⟨domain, hdomain, rfl⟩ := Option.map_eq_some_iff.mp h
      exact .inr ⟨hkl, hk, hl, domain, hdomain, rfl⟩
    next => cases h

namespace Scalar

/-- The scalar is a floating payload that is not a number. -/
def isNaN : Scalar → Bool
  | ⟨.float _, x⟩ => x = .nan
  | _ => false

theorem isSome_key?_of_isNaN_eq_false {s : Scalar} (h : s.isNaN = false)
    : (s.kind.key? s.payload).isSome = true := by
  obtain ⟨_ | p | _ | _ | _ | _, x⟩ := s
  case float =>
    cases x with
    | nan => cases h
    | number => rfl
  all_goals rfl

theorem isSome_key?_convert {p : Precision} {x : Binary p.format}
    (h : isNaN ⟨.float p, x⟩ = false)
    : (x.convert : Binary64).key?.isSome = true := by
  rw [Binary.key?_convert, Option.isSome_map]
  exact isSome_key?_of_isNaN_eq_false h

theorem isSome_key?_ofInt (n : Int) : (Binary.ofInt n : Binary64).key?.isSome = true := by
  obtain ⟨i, hi, _⟩ := Binary.exists_key?_ofInt n
  rw [hi]
  rfl

/-- Two scalars that equality has a body for are related as two payloads of one kind, whatever the
relation, and the payloads have keys where the scalars are numbers.
-/
theorem exists_common_kind {s t : Scalar} {body : Body}
    (h : equalityBody? (.scalar s.kind) (.scalar t.kind) = some body)
    : ∃ (k : Kind) (x y : k.Payload),
        (∀ rel, body.relate? rel s t = some (rel k x y))
        ∧ (s.isNaN = false → (k.key? x).isSome = true)
        ∧ (t.isNaN = false → (k.key? y).isSome = true) := by
  obtain ⟨k, x⟩ := s
  obtain ⟨l, y⟩ := t
  rcases equalityBody?_scalars_cases h with ⟨rfl, rfl⟩ | ⟨hkl, hk, hl, domain, hdomain, rfl⟩
  · refine ⟨k, x, y, fun rel => by simp [Body.relate?, related?], ?_, ?_⟩
    · exact isSome_key?_of_isNaN_eq_false
    · exact isSome_key?_of_isNaN_eq_false
  -- Of two kinds the lattice's domain depends on whether one of them is a floating kind.
  · cases k with
    | int k =>
        cases l with
        | int l =>
            cases hdomain
            exact ⟨.i64, .wrap x.val, .wrap y.val, fun _ => rfl, fun _ => rfl, fun _ => rfl⟩
        | float q =>
            cases hdomain
            exact ⟨.f64, .ofInt x.val, y.convert, fun _ => rfl,
              fun _ => isSome_key?_ofInt x.val, isSome_key?_convert⟩
        | text | bool | instant | duration => cases hl
    | float p =>
        cases l with
        | int l =>
            cases hdomain
            exact ⟨.f64, x.convert, .ofInt y.val, fun _ => rfl, isSome_key?_convert,
              fun _ => isSome_key?_ofInt y.val⟩
        | float q =>
            cases hdomain
            exact ⟨.f64, x.convert, y.convert, fun _ => rfl, isSome_key?_convert,
              isSome_key?_convert⟩
        | text | bool | instant | duration => cases hl
    | text | bool | instant | duration => cases hk

end Scalar

end DynamicOps
