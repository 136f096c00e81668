import DynamicOps.Proofs.Equality.Level
import DynamicOps.Proofs.Ordering.CommonKinds
import DynamicOps.Value.Labelled

/-!
Orderings and equality on one pair of values. Either no ordering is defined on it, or the five
comparisons answer by the order and the equality of one kind, and so agree with each other.
-/

namespace DynamicOps

variable {ε : Type} [Extension ε]

/-- What the five comparisons answer on two values, given the answers of three of them. -/
structure Comparisons (a b : Value ε) (lt eq gt : Bool) : Prop where
  less : apply (.order .less) a b = .ok (.ofBool lt)
  equal : apply .equal a b = .ok (.ofBool eq)
  more : apply (.order .more) a b = .ok (.ofBool gt)
  lessOrEqual : apply (.order .lessOrEqual) a b = .ok (.ofBool (lt || eq))
  moreOrEqual : apply (.order .moreOrEqual) a b = .ok (.ofBool (gt || eq))

/-- No ordering is defined on two values. -/
def Unordered (a b : Value ε) : Prop :=
  ∀ relation,
    apply (.order relation) a b = .error (.invalid (.order relation) a.typeName b.typeName)

theorem apply_equal (lhs rhs : Value ε) : apply .equal lhs rhs = .ok (.ofBool (equal lhs rhs)) :=
  rfl

/-- Two scalars that are related as payloads of one kind are compared by its order and equality. -/
theorem comparisons_of_relate? {s t : Scalar} {body : Body}
    (hbody : orderingBody? s.kind t.kind = some body) {k : Kind} {x y : k.Payload}
    (hrelate : ∀ rel, body.relate? rel s t = some (rel k x y))
    : Comparisons (.scalar s : Value ε) (.scalar t) (k.less x y) (k.equal x y) (k.less y x) := by
  have hordered (relation : Ordered)
      : ordered? relation (.scalar s : Value ε) (.scalar t) = some (relation.relation k x y) := by
    rw [ordered?_eq]
    simp only [Value.scalar?, Option.bind_some, hbody, hrelate]
  refine ⟨apply_order_of_some (hordered .less), ?_, apply_order_of_some (hordered .more),
    apply_order_of_some (hordered .lessOrEqual), apply_order_of_some (hordered .moreOrEqual)⟩
  rw [apply_equal, equal_scalar_scalar, Scalar.equal, Scalar.comparison?,
    equalityBody?_of_orderingBody? hbody, Option.bind_some, hrelate, Option.getD_some]

/-- Values are ordered by one body in both orders, or not at all. -/
theorem comparisons_or_unordered (a b : Value ε)
    : (∃ s t body, a = .scalar s ∧ b = .scalar t ∧ orderingBody? s.kind t.kind = some body)
      ∨ Unordered a b ∧ Unordered b a := by
  by_cases h : ∃ s t body, a = .scalar s ∧ b = .scalar t ∧ orderingBody? s.kind t.kind = some body
  · exact .inl h
  · have hnone (relation : Ordered)
        : ordered? relation a b = none ∧ ordered? relation b a = none := by
      rw [ordered?_eq, ordered?_eq]
      rcases a with _ | s | _ | _ | _ | _ | _ <;> rcases b with _ | t | _ | _ | _ | _ | _
      case scalar.scalar =>
        have hbody : orderingBody? s.kind t.kind = none := by
          rw [Option.eq_none_iff_forall_ne_some]
          exact fun body hbody => h ⟨s, t, body, rfl, rfl, hbody⟩
        simp [Value.scalar?, hbody, orderingBody?_comm t.kind]
      all_goals exact ⟨rfl, rfl⟩
    exact .inr ⟨fun relation => apply_order_of_none (hnone relation).1,
      fun relation => apply_order_of_none (hnone relation).2⟩

/-- The first value is less than the second. -/
def Below (a b : Value ε) : Prop :=
  apply (.order .less) a b = .ok (.ofBool true)

theorem exists_scalars_of_below {a b : Value ε} (h : Below a b)
    : ∃ s t, a = .scalar s ∧ b = .scalar t := by
  rcases comparisons_or_unordered a b with ⟨s, t, _, ha, hb, _⟩ | ⟨hunordered, _⟩
  · exact ⟨s, t, ha, hb⟩
  · rw [Below, hunordered .less] at h
    cases h

theorem below_same_kind_iff {k : Kind} {x y : k.Payload}
    : Below (.scalar ⟨k, x⟩ : Value ε) (.scalar ⟨k, y⟩) ↔ k ≠ .bool ∧ k.less x y = true := by
  by_cases hk : k = .bool
  · have hnone : ordered? .less (.scalar ⟨k, x⟩ : Value ε) (.scalar ⟨k, y⟩) = none := by
      rw [ordered?_eq]
      simp [Value.scalar?, orderingBody?, hk]
    simp [Below, apply_order_of_none hnone, hk]
  · have hbody : orderingBody? k k = some .native := by simp [orderingBody?, hk, equalityBody?]
    have hrelate (rel : PayloadRelation)
        : Body.native.relate? rel ⟨k, x⟩ ⟨k, y⟩ = some (rel k x y) := by
      simp [Body.relate?, Scalar.related?]
    have hless : apply (.order .less) (.scalar ⟨k, x⟩ : Value ε) (.scalar ⟨k, y⟩)
        = .ok (.ofBool (k.less x y)) :=
      (comparisons_of_relate? hbody hrelate).less
    simp [Below, hless, hk, Value.ofBool, Scalar.ofBool]

theorem Below.trans {a b c : Value ε} (hab : a.kind? = b.kind?) (hbc : b.kind? = c.kind?)
    (h : Below a b) (h' : Below b c)
    : Below a c := by
  obtain ⟨⟨k, x⟩, ⟨l, y⟩, rfl, rfl⟩ := exists_scalars_of_below h
  obtain ⟨_, ⟨m, z⟩, _, rfl⟩ := exists_scalars_of_below h'
  obtain rfl : k = l := Option.some.inj hab
  obtain rfl : k = m := Option.some.inj hbc
  rw [below_same_kind_iff] at *
  exact ⟨h.1, Kind.less_trans h.2 h'.2⟩

/-- The value is a floating number that is not a number. -/
def Value.isNaN : Value ε → Bool
  | .scalar s => s.isNaN
  | _ => false

/-- On two values the orderings are all defined or all invalid, in both orders of the values. Where
they are defined, they and equality answer as one order with its equality does, of which at most one
direction holds, and exactly one between numbers. Within one kind this order is transitive.
-/
theorem orderings_consistent (a b : Value ε)
    : ((∃ lt eq gt : Bool,
          Comparisons a b lt eq gt
          ∧ Comparisons b a gt eq lt
          ∧ [lt, eq, gt].count true ≤ 1
          ∧ (a.isNaN = false → b.isNaN = false → [lt, eq, gt].count true = 1))
        ∨ Unordered a b ∧ Unordered b a)
      ∧ ∀ c : Value ε,
          a.kind? = b.kind? → b.kind? = c.kind? → Below a b → Below b c → Below a c := by
  refine ⟨?_, fun c hab hbc => Below.trans hab hbc⟩
  rcases comparisons_or_unordered a b with ⟨s, t, body, rfl, rfl, hbody⟩ | hunordered
  · obtain ⟨k, x, y, hrelate, hx, hy⟩ :=
      Scalar.exists_common_kind (equalityBody?_of_orderingBody? hbody)
    have hrelate' (rel : PayloadRelation) : body.relate? rel t s = some (rel k y x) := by
      rw [relate?_swap, hrelate]
    have hbody' : orderingBody? t.kind s.kind = some body := by rwa [orderingBody?_comm]
    have hswapped : Comparisons (.scalar t : Value ε) (.scalar s)
        (k.less y x) (k.equal x y) (k.less x y) := by
      rw [Kind.equal_comm]
      exact comparisons_of_relate? hbody' hrelate'
    have hcount := Kind.count_comparisons k x y
    refine .inl ⟨_, _, _, comparisons_of_relate? hbody hrelate, hswapped, ?_, ?_⟩
    · rw [hcount]
      split <;> simp
    · intro hs ht
      rw [hcount, hx hs, hy ht]
      rfl
  · exact .inr hunordered

/-- A text lies between its beginning and a text that exceeds it in its first character. -/
theorem orderings_consistent_texts
    : Below (.scalar ⟨.text, "a"⟩ : Value Labelled) (.scalar ⟨.text, "ab"⟩)
      ∧ Below (.scalar ⟨.text, "ab"⟩ : Value Labelled) (.scalar ⟨.text, "b"⟩)
      ∧ Below (.scalar ⟨.text, "a"⟩ : Value Labelled) (.scalar ⟨.text, "b"⟩) := by
  have hfirst : Below (.scalar ⟨.text, "a"⟩ : Value Labelled) (.scalar ⟨.text, "ab"⟩) :=
    below_same_kind_iff.mpr ⟨by decide, by decide⟩
  have hsecond : Below (.scalar ⟨.text, "ab"⟩ : Value Labelled) (.scalar ⟨.text, "b"⟩) :=
    below_same_kind_iff.mpr ⟨by decide, by decide⟩
  have htrans := (orderings_consistent (.scalar ⟨.text, "a"⟩ : Value Labelled)
    (.scalar ⟨.text, "ab"⟩)).2 (.scalar ⟨.text, "b"⟩)
  exact ⟨hfirst, hsecond, htrans rfl rfl hfirst hsecond⟩

end DynamicOps
