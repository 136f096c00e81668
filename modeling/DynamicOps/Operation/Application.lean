import DynamicOps.Operation.Equality

/-!
Applying operators. Equality always answers with a truth value; orderings and arithmetic have a
result where the operator's table has a case, and are invalid otherwise.
-/

namespace DynamicOps

variable {ε : Type}

/-- How an operator was resolved on its operands, and its result. -/
structure Application (ε : Type) where
  route : Route
  result : Except OpError (Value ε)

/-- The route of the equality operator. -/
def equalRoute (lhs rhs : Value ε) : Route :=
  if (Verdict.ofTable? lhs rhs).isSome then .table else .fallback

/-- The case of an operator's table that two scalars select. -/
def selected? (op : Operator) (lhs rhs : Value ε) : Option (Body × Scalar × Scalar) := do
  let body ← op.table.select? lhs rhs
  some (body, ← lhs.scalar?, ← rhs.scalar?)

/-- An ordering of two values, where its table has a case for them. -/
def ordered? (relation : Ordered) (lhs rhs : Value ε) : Option Bool := do
  let (body, s, t) ← selected? (.order relation) lhs rhs
  body.relate? relation.relation s t

/-- An arithmetic operator on two values, where its table has a case for them. -/
def computed? (op : Arithmetic) (lhs rhs : Value ε) : Option (Except OpError Scalar) := do
  let (body, s, t) ← selected? (.compute op) lhs rhs
  body.compute? op s t

variable [Extension ε]

/-- An application that nothing accepts. -/
def Application.invalid (op : Operator) (lhs rhs : Value ε) : Application ε :=
  ⟨.invalid, .error (.invalid op lhs.typeName rhs.typeName)⟩

/-- Resolves an operator on two values. -/
def dispatch (op : Operator) (lhs rhs : Value ε) : Application ε :=
  match op with
  | .equal => ⟨equalRoute lhs rhs, .ok (.ofBool (equal lhs rhs))⟩
  | .order relation =>
    match ordered? relation lhs rhs with
    | some b => ⟨.table, .ok (.ofBool b)⟩
    | none => .invalid op lhs rhs
  | .compute operation =>
    match computed? operation lhs rhs with
    | some result => ⟨.table, result.map .scalar⟩
    | none => .invalid op lhs rhs

/-- The result of an operator on two values. -/
def apply (op : Operator) (lhs rhs : Value ε) : Except OpError (Value ε) :=
  (dispatch op lhs rhs).result

omit [Extension ε] in
/-- The kind that the lattice gives for the kinds of two scalars. -/
def resultKind? (op : Operator) (lhs rhs : Value ε) : Option Kind := do
  promote op (← lhs.kind?) (← rhs.kind?)

end DynamicOps
