import DynamicOps.Operation.Equality
import DynamicOps.Proofs.Equality.Scalars
import DynamicOps.Proofs.Table.Selection
import DynamicOps.Value.Identity

/-!
The verdict of equality on a pair of values. Whichever way a pair takes, through the table or
around it, with references on either side, the verdict depends on the resolved operands alone.
-/

namespace DynamicOps

variable {ε : Type}

namespace Verdict

/-- The equality table's verdict on two values is that of the body for their patterns. -/
theorem ofTable?_eq (lhs rhs : Value ε)
    : ofTable? lhs rhs
      = lhs.pattern?.bind fun p => rhs.pattern?.bind fun q =>
          (equalityBody? p q).bind fun body => ofBody? body lhs rhs := by
  simp only [ofTable?, Operator.table_eq, Table.select?_eq, get?_synthesize_equal,
    Option.bind_assoc]

/-- Any body of the table compares two scalars by relating them. -/
theorem ofBody?_scalar_scalar (body : Body) (s t : Scalar)
    : ofBody? body (.scalar s : Value ε) (.scalar t)
      = (body.relate? Kind.equal s t).map answer := by
  cases body <;> rfl

/-- The equality table's verdict on two values by their shapes: it compares scalars, bare or with a
reference to their own kind, and arrays.
-/
theorem ofTable?_shapes (lhs rhs : Value ε)
    : ofTable? lhs rhs
      = match lhs, rhs with
        | .scalar s, .scalar t => (s.comparison? t).map answer
        | .scalar s, .ref (.present t) =>
          if s.kind = t.kind then (s.comparison? t).map answer else none
        | .list xs, .array b => some (ofItems xs (b.toScalars.map .scalar))
        | .array a, .list ys => some (ofItems ys (a.toScalars.map .scalar))
        | .array a, .array b => (a.equal? b).map answer
        | _, _ => none := by
  rw [ofTable?_eq]
  cases lhs with
  | nil | record _ | extension _ => rfl
  | ref r =>
      cases r with
      | nil k => rfl
      | present s => rcases rhs with _ | _ | _ | _ | _ | (_ | _) | _ <;> rfl
  | scalar s =>
      cases rhs with
      | nil | record _ | extension _ | array _ | list _ => rfl
      | scalar t =>
          simp [Value.pattern?, ofBody?_scalar_scalar, Scalar.comparison?, Option.map_bind]
      | ref r =>
          cases r with
          | nil k => rfl
          | present t =>
              by_cases h : s.kind = t.kind
              · simp [Value.pattern?, equalityBody?, Scalar.comparison?, h, ofBody?, Body.relate?]
              · simp [Value.pattern?, equalityBody?, h]
  | list xs => rcases rhs with _ | _ | _ | _ | _ | (_ | _) | _ <;> rfl
  | array a =>
      cases rhs with
      | nil | record _ | extension _ | list _ | scalar _ => rfl
      | ref r => cases r <;> rfl
      | array b =>
          by_cases h : a.kind = b.kind
          · simp [Value.pattern?, equalityBody?, h, ofBody?]
          · simp [Value.pattern?, equalityBody?, h, TypedArray.equal?]

variable [Extension ε]

/-- Integer scalars always have an answer in the equality table, so their views are not used. -/
theorem ofIntegers?_scalar_scalar {s t : Scalar} (h : s.comparison? t = none)
    : ofIntegers? (.scalar s : Value ε) (.scalar t) = none := by
  obtain ⟨k, x⟩ := s
  obtain ⟨l, y⟩ := t
  cases k with
  | float _ | text | bool | instant | duration => rfl
  | int k =>
      cases l with
      | int l => simp [Scalar.comparison?_int_int] at h
      | float _ | text | bool | instant | duration => simp [ofIntegers?, Value.integer?]

/-- Nothing is compared by integer views when the right operand has none. -/
theorem ofIntegers?_of_right {lhs rhs : Value ε} (h : rhs.integer? = none)
    : ofIntegers? lhs rhs = none := by
  unfold ofIntegers?
  rw [h]
  cases lhs.integer? <;> rfl

/-- The verdict on values that are no present references, by their shapes. -/
def ofShapes : Value ε → Value ε → Verdict ε
  | .nil, .nil => answer true
  | .ref _, .ref _ => answer true
  | .scalar s, .scalar t => answer (s.equal t)
  | .list xs, .list ys => ofItems xs ys
  | .list xs, .array b => ofItems xs (b.toScalars.map .scalar)
  | .array a, .list ys => ofItems ys (a.toScalars.map .scalar)
  | .array a, .array b => answer (a.same b)
  | .record xs, .record ys => ofFields xs ys
  | .extension x, .extension y =>
    (ofIntegers? (.extension x) (.extension y)).getD (answer (Extension.equals x y))
  | .extension x, .scalar t => (ofIntegers? (.extension x) (.scalar t)).getD (answer false)
  | .scalar s, .extension y => (ofIntegers? (.scalar s) (.extension y)).getD (answer false)
  | _, _ => answer false

omit [Extension ε] in
/-- The table does not contradict itself on the targets of a pair, by cases on the references. -/
theorem ofTable?_resolve (lhs rhs : Value ε)
    : ofTable? lhs rhs = none ∨ ofTable? lhs rhs = ofTable? lhs.resolve rhs.resolve := by
  simp only [ofTable?_shapes]
  rcases lhs with _ | s | a | xs | xs | (k | s) | x
  case ref.present => exact .inl rfl
  case scalar =>
    rcases rhs with _ | t | b | ys | ys | (l | t) | y
    case ref.present =>
      by_cases h : s.kind = t.kind
      · exact .inr (if_pos h)
      · exact .inl (if_neg h)
    all_goals exact .inr rfl
  all_goals
    rcases rhs with _ | t | b | ys | ys | (l | t) | y
    case ref.present => exact .inl rfl
    all_goals exact .inr rfl

omit [Extension ε] in
theorem resolve_of_isRef_eq_false {v : Value ε} (h : v.isRef = false) : v.resolve = v := by
  cases v <;> first | rfl | cases h

/-- A present pair takes the table's verdict on its resolved operands, then that of their integer
views, then that of their parts.
-/
theorem of_eq_of_present {lhs rhs : Value ε} (hl : lhs.isAbsent = false)
    (hr : rhs.isAbsent = false)
    : of lhs rhs
      = ((ofTable? lhs.resolve rhs.resolve).or (ofIntegers? lhs.resolve rhs.resolve)).getD
          (ofParts lhs.resolve rhs.resolve) := by
  have hstructural
      : structural lhs rhs
        = ((if lhs.isRef || rhs.isRef then ofTable? lhs.resolve rhs.resolve else none).or
            (ofIntegers? lhs.resolve rhs.resolve)).getD (ofParts lhs.resolve rhs.resolve) := by
    simp [structural, hl, hr]
  rw [of, hstructural]
  cases href : lhs.isRef || rhs.isRef with
  | false =>
      obtain ⟨hlhs, hrhs⟩ := Bool.or_eq_false_iff.mp href
      rw [resolve_of_isRef_eq_false hlhs, resolve_of_isRef_eq_false hrhs]
      cases ofTable? lhs rhs <;> simp
  | true =>
      rcases ofTable?_resolve lhs rhs with h | h
      · simp [h]
      · rw [h]
        cases ofTable? lhs.resolve rhs.resolve <;> simp

/-- Of values that are neither absent nor references, the shapes decide which of the three answers,
by cases on both.
-/
theorem ofShapes_of_present {x y : Value ε} (hx : (x.isAbsent || x.isRef) = false)
    (hy : (y.isAbsent || y.isRef) = false)
    : ((ofTable? x y).or (ofIntegers? x y)).getD (ofParts x y) = ofShapes x y := by
  rw [ofTable?_shapes]
  cases x with
  | nil => cases hx
  | ref r => simp [Value.isRef] at hx
  | scalar s =>
      cases y with
      | nil => cases hy
      | ref r => simp [Value.isRef] at hy
      | array _ | list _ | record _ =>
          rw [ofIntegers?_of_right rfl]
          rfl
      | extension y => rfl
      | scalar t =>
          cases h : s.comparison? t with
          | none => simp [ofIntegers?_scalar_scalar h, ofShapes, ofParts, Scalar.equal, h]
          | some b => simp [ofShapes, Scalar.equal, h]
  | array a =>
      cases y with
      | nil => cases hy
      | ref r => simp [Value.isRef] at hy
      | scalar _ | list _ | record _ | extension _ => rfl
      | array b =>
          change (((a.equal? b).map answer).or none).getD (answer ((a.equal? b).getD false)) = _
          cases h : a.equal? b <;> simp [ofShapes, TypedArray.same, h]
  | list xs | record xs =>
      cases y with
      | nil => cases hy
      | ref r => simp [Value.isRef] at hy
      | scalar _ | array _ | list _ | record _ | extension _ => rfl
  | extension x =>
      cases y with
      | nil => cases hy
      | ref r => simp [Value.isRef] at hy
      | scalar _ | extension _ => rfl
      | array _ | list _ | record _ =>
          rw [ofIntegers?_of_right rfl]
          rfl

/-- A pair with an absent value is equal when both are nil or both are nil references. -/
theorem ofShapes_of_absent {lhs rhs : Value ε} (h : (lhs.isAbsent || rhs.isAbsent) = true)
    : of lhs rhs = ofShapes lhs.resolve rhs.resolve := by
  have htable : ofTable? lhs rhs = none := by
    rw [ofTable?_shapes]
    rcases lhs with _ | _ | _ | _ | _ | (_ | _) | _ <;>
      rcases rhs with _ | _ | _ | _ | _ | (_ | _) | _ <;> first | cases h; done | rfl
  rw [of, htable]
  rcases lhs with _ | _ | _ | _ | _ | (_ | _) | _ <;>
    rcases rhs with _ | _ | _ | _ | _ | (_ | _) | _ <;> first | cases h; done | rfl

/-- The verdict on two values is that of their shapes after references were resolved. -/
theorem of_eq_ofShapes (lhs rhs : Value ε) : of lhs rhs = ofShapes lhs.resolve rhs.resolve := by
  cases h : lhs.isAbsent || rhs.isAbsent with
  | true => exact ofShapes_of_absent h
  | false =>
      obtain ⟨hl, hr⟩ := Bool.or_eq_false_iff.mp h
      have hresolve {v : Value ε} (hv : v.isAbsent = false)
          : (v.resolve.isAbsent || v.resolve.isRef) = false := by
        rcases v with _ | _ | _ | _ | _ | (_ | _) | _ <;> first | rfl | cases hv
      rw [of_eq_of_present hl hr]
      exact ofShapes_of_present (hresolve hl) (hresolve hr)

end Verdict

end DynamicOps
