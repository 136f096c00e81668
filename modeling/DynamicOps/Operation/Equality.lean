import DynamicOps.Operation.Body

/-!
The equality operator. One level of it either answers, or splits the pair into pairs that all have
to be equal: by the equality table where that has a case, and structurally otherwise. Structural
comparison looks through references one level, compares integers of one family by value, and goes
into lists and records. The operator follows the pairs of every level to the end.
-/

namespace DynamicOps

/-- How a pair of operands was resolved. -/
inductive Route
  | table
  | fallback
  | invalid
deriving DecidableEq

/-- The display form of a route. -/
def Route.name : Route → String
  | table => "table"
  | fallback => "fallback"
  | invalid => "invalid"

/-- What one level of equality concludes: an answer, or pairs that all have to be equal. -/
inductive Verdict (ε : Type)
  | answer (b : Bool)
  | each (pairs : List (Value ε × Value ε))

namespace Verdict

variable {ε : Type}

/-- Two lists are equal when they have the same length and equal elements. -/
def ofItems (xs ys : List (Value ε)) : Verdict ε :=
  if xs.length = ys.length then each (xs.zip ys) else answer false

/-- Two records are equal when they have the same names in the same order and equal values. -/
def ofFields (xs ys : List (String × Value ε)) : Verdict ε :=
  if xs.map Prod.fst = ys.map Prod.fst then each ((xs.map Prod.snd).zip (ys.map Prod.snd))
  else answer false

/-- A body of the equality table on a pair of values. -/
def ofBody? (body : Body) (lhs rhs : Value ε) : Option (Verdict ε) :=
  match body, lhs, rhs with
  | .native, .array a, .array b => (a.equal? b).map answer
  | .native, .scalar s, .ref (.present t) => (s.related? Kind.equal t).map answer
  | .elementwise, .list xs, .array a => some (ofItems xs (a.toScalars.map .scalar))
  | .swapped, .array a, .list ys => some (ofItems ys (a.toScalars.map .scalar))
  | body, .scalar s, .scalar t => (body.relate? Kind.equal s t).map answer
  | _, _, _ => none

/-- The verdict of the equality table, if it has a case for the pair. -/
def ofTable? (lhs rhs : Value ε) : Option (Verdict ε) :=
  (Operator.equal.table.select? lhs rhs).bind fun body => ofBody? body lhs rhs

variable [Extension ε]

/-- Two integers of one family compare by value; other values have no verdict here. -/
def ofIntegers? (lhs rhs : Value ε) : Option (Verdict ε) :=
  match lhs.integer?, rhs.integer? with
  | some a, some b => if a.family = b.family then some (answer (a = b)) else none
  | _, _ => none

/-- Records, lists, and extensions compare with their like by their parts. -/
def ofParts : Value ε → Value ε → Verdict ε
  | .record xs, .record ys => ofFields xs ys
  | .list xs, .list ys => ofItems xs ys
  | .array a, .array b => answer ((a.equal? b).getD false)
  | .extension x, .extension y => answer (Extension.equals x y)
  | _, _ => answer false

/-- The verdict on a pair without a case in the equality table. -/
def structural (lhs rhs : Value ε) : Verdict ε :=
  if lhs.isAbsent && rhs.isAbsent then answer (lhs.isRef == rhs.isRef)
  else if lhs.isAbsent || rhs.isAbsent then answer false
  else
    let x := lhs.resolve
    let y := rhs.resolve
    let again := if lhs.isRef || rhs.isRef then ofTable? x y else none
    (again.or (ofIntegers? x y)).getD (ofParts x y)

/-- The verdict on a pair. -/
def of (lhs rhs : Value ε) : Verdict ε :=
  (ofTable? lhs rhs).getD (structural lhs rhs)

end Verdict

namespace Value

variable {ε : Type}

mutual

/-- The number of lists and records in a value, which bounds the levels of equality. -/
def weight : Value ε → Nat
  | list items => weightItems items + 1
  | record fields => weightFields fields + 1
  | _ => 0

/-- The weight of the items of a list. -/
def weightItems : List (Value ε) → Nat
  | [] => 0
  | item :: items => weight item + weightItems items

/-- The weight of the values of a record's fields. -/
def weightFields : List (String × Value ε) → Nat
  | [] => 0
  | (_, item) :: fields => weight item + weightFields fields

end

/-- An item weighs no more than its list, by induction over the list. -/
theorem weight_le_weightItems {v : Value ε} {items : List (Value ε)} (h : v ∈ items)
    : weight v ≤ weightItems items := by
  induction items with
  | nil => cases h
  | cons item items ih =>
    simp only [weightItems]
    rcases List.mem_cons.1 h with rfl | h
    · omega
    · have := ih h
      omega

/-- A field's value weighs no more than its record's fields, by induction over the fields. -/
theorem weight_le_weightFields {v : Value ε} {fields : List (String × Value ε)}
    (h : v ∈ fields.map Prod.snd)
    : weight v ≤ weightFields fields := by
  induction fields with
  | nil => cases h
  | cons field fields ih =>
    simp only [weightFields]
    rcases List.mem_cons.1 h with rfl | h
    · omega
    · have := ih h
      omega

end Value

namespace Verdict

variable {ε : Type}

/-- The pairs of two lists weigh less than the lists, whatever the lists belong to. -/
theorem weight_lt_of_ofItems {xs ys : List (Value ε)} {pairs : List (Value ε × Value ε)}
    {bound : Nat} (hys : ∀ y ∈ ys, y.weight ≤ bound) (h : ofItems xs ys = each pairs)
    {p : Value ε × Value ε} (hp : p ∈ pairs)
    : p.1.weight + p.2.weight < Value.weight (.list xs) + bound := by
  unfold ofItems at h
  split at h
  · injection h with h
    subst h
    have hx := Value.weight_le_weightItems (List.of_mem_zip hp).1
    have hy := hys _ (List.of_mem_zip hp).2
    simp only [Value.weight]
    omega
  · cases h

/-- Elements of homogeneous sequences weigh nothing. -/
theorem weight_toScalars {a : TypedArray} {v : Value ε} (h : v ∈ a.toScalars.map Value.scalar)
    : v.weight ≤ 0 := by
  obtain ⟨s, _, rfl⟩ := List.mem_map.1 h
  simp [Value.weight]

/-- The pairs of a case of the equality table weigh less than its operands. -/
theorem weight_lt_of_ofBody? {body : Body} {lhs rhs : Value ε}
    {pairs : List (Value ε × Value ε)} (h : ofBody? body lhs rhs = some (each pairs))
    {p : Value ε × Value ε} (hp : p ∈ pairs)
    : p.1.weight + p.2.weight < lhs.weight + rhs.weight := by
  unfold ofBody? at h
  split at h
  · simp at h
  · simp at h
  · simp only [Option.some.injEq] at h
    have := weight_lt_of_ofItems (fun _ => weight_toScalars) h hp
    omega
  · simp only [Option.some.injEq] at h
    have := weight_lt_of_ofItems (fun _ => weight_toScalars) h hp
    omega
  · simp at h
  · cases h

/-- The pairs of a case of the equality table weigh less than its operands. -/
theorem weight_lt_of_ofTable? {lhs rhs : Value ε} {pairs : List (Value ε × Value ε)}
    (h : ofTable? lhs rhs = some (each pairs)) {p : Value ε × Value ε} (hp : p ∈ pairs)
    : p.1.weight + p.2.weight < lhs.weight + rhs.weight := by
  obtain ⟨_, _, hb⟩ := Option.bind_eq_some_iff.1 h
  exact weight_lt_of_ofBody? hb hp

variable [Extension ε]

/-- The pairs of two records weigh less than the records. -/
theorem weight_lt_of_ofParts {lhs rhs : Value ε} {pairs : List (Value ε × Value ε)}
    (h : ofParts lhs rhs = each pairs) {p : Value ε × Value ε} (hp : p ∈ pairs)
    : p.1.weight + p.2.weight < lhs.weight + rhs.weight := by
  unfold ofParts at h
  split at h
  · unfold ofFields at h
    split at h
    · injection h with h
      subst h
      have hx := Value.weight_le_weightFields (List.of_mem_zip hp).1
      have hy := Value.weight_le_weightFields (List.of_mem_zip hp).2
      simp only [Value.weight]
      omega
    · cases h
  · have := weight_lt_of_ofItems (fun _ => Value.weight_le_weightItems) h hp
    simp only [Value.weight] at this ⊢
    omega
  · cases h
  · cases h
  · cases h

omit [Extension ε] in
/-- A reference weighs as much as its target. -/
theorem weight_resolve (v : Value ε) : v.resolve.weight = v.weight := by
  unfold Value.resolve
  split <;> simp [Value.weight]

/-- The pairs of a structural verdict weigh less than the operands. -/
theorem weight_lt_of_structural {lhs rhs : Value ε} {pairs : List (Value ε × Value ε)}
    (h : structural lhs rhs = each pairs) {p : Value ε × Value ε} (hp : p ∈ pairs)
    : p.1.weight + p.2.weight < lhs.weight + rhs.weight := by
  rw [← weight_resolve lhs, ← weight_resolve rhs]
  simp only [structural] at h
  split at h
  · cases h
  split at h
  · cases h
  cases hagain : (if lhs.isRef || rhs.isRef then ofTable? lhs.resolve rhs.resolve else none) with
  | some v =>
    simp only [hagain, Option.some_or, Option.getD_some] at h
    split at hagain
    · exact weight_lt_of_ofTable? (hagain.trans (congrArg some h)) hp
    · cases hagain
  | none =>
    simp only [hagain, Option.none_or] at h
    cases hint : ofIntegers? lhs.resolve rhs.resolve with
    | some v =>
      simp only [hint, Option.getD_some] at h
      unfold ofIntegers? at hint
      split at hint
      · split at hint
        · simp only [Option.some.injEq] at hint
          rw [h] at hint
          cases hint
        · cases hint
      · cases hint
    | none =>
      simp only [hint, Option.getD_none] at h
      exact weight_lt_of_ofParts h hp

/-- The pairs of a verdict weigh less than the operands. -/
theorem weight_lt_of_of {lhs rhs : Value ε} {pairs : List (Value ε × Value ε)}
    (h : of lhs rhs = each pairs) {p : Value ε × Value ε} (hp : p ∈ pairs)
    : p.1.weight + p.2.weight < lhs.weight + rhs.weight := by
  unfold of at h
  cases ht : ofTable? lhs rhs with
  | some v =>
    simp only [ht, Option.getD_some] at h
    exact weight_lt_of_ofTable? (ht.trans (congrArg some h)) hp
  | none =>
    simp only [ht, Option.getD_none] at h
    exact weight_lt_of_structural h hp

end Verdict

/-- Follows the verdicts of a step to the end, where its pairs always weigh less than a pair. -/
def Verdict.follow {ε : Type} (step : Value ε → Value ε → Verdict ε)
    (lighter : ∀ {lhs rhs pairs}, step lhs rhs = each pairs → ∀ {p}, p ∈ pairs →
      p.1.weight + p.2.weight < lhs.weight + rhs.weight)
    (lhs rhs : Value ε) : Bool :=
  match _h : step lhs rhs with
  | answer b => b
  | each pairs => pairs.attach.all fun p => follow step lighter p.1.1 p.1.2
termination_by lhs.weight + rhs.weight
decreasing_by exact lighter _h p.2

/-- The equality operator, by following the verdict of every level. -/
def equal {ε : Type} [Extension ε] (lhs rhs : Value ε) : Bool :=
  Verdict.follow Verdict.of Verdict.weight_lt_of_of lhs rhs

/-- Equality is the answer of its verdict, or equality of all pairs of the verdict. -/
theorem equal_eq {ε : Type} [Extension ε] (lhs rhs : Value ε)
    : equal lhs rhs = match Verdict.of lhs rhs with
      | .answer b => b
      | .each pairs => pairs.all fun p => equal p.1 p.2 := by
  unfold equal
  rw [Verdict.follow]
  split <;> rename_i h <;> simp only [h, List.all_eq, List.mem_attach]
  simp

namespace Verdict

variable {ε : Type} [Extension ε]

/-- A verdict holds when it is a positive answer or all of its pairs are equal. -/
def holds : Verdict ε → Bool
  | answer b => b
  | each pairs => pairs.all fun p => equal p.1 p.2

@[simp]
theorem holds_answer (b : Bool) : (answer b : Verdict ε).holds = b :=
  rfl

theorem holds_of (lhs rhs : Value ε) : (of lhs rhs).holds = equal lhs rhs := by
  rw [equal_eq]
  cases of lhs rhs <;> rfl

end Verdict

end DynamicOps
