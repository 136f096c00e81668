import DynamicOps.Operation.Equality
import DynamicOps.Proofs.Generated.Syntax

/-!
The meaning of generated code. An expression has an object under a scope of names, and none where
the code applies a form to objects that it is not for; a match gives the object of the first arm
whose shape fits, or an absent one. The forms are spelled out here one by one, by what the methods,
casts, and helpers they are named after do, without a look at what bodies compute.
-/

namespace DynamicOps.Generated

/-- What expressions of generated code stand for: values and their parts, options, and results. -/
inductive Object (ε : Type)
  | value (v : Value ε)
  | payload (s : Scalar)
  | items (xs : List (Value ε))
  | elements (a : TypedArray)
  | reference (r : Reference)
  | absent
  | present (o : Object ε)
  | done (o : Object ε)
  | failed (e : OpError)

variable {ε : Type}

namespace Object

/-- A truth value. -/
def ofTruth (b : Bool) : Object ε :=
  .payload (.ofBool b)

/-- An object that may be missing, as an option of the generated code. -/
def ofOption : Option (Object ε) → Object ε
  | some o => .present o
  | none => .absent

/-- A payload that a checked method may not have. -/
def checked (k : Kind) (x? : Option k.Payload) : Object ε :=
  .ofOption (x?.map fun x => .payload ⟨k, x⟩)

/-- A result with a scalar. -/
def ofResult : Except OpError Scalar → Object ε
  | .ok s => .done (.value (.scalar s))
  | .error e => .failed e

end Object

/-- A number cast to a word or to double precision. -/
def cast? : Kind → Scalar → Option Scalar
  | .int (.signed .w64), ⟨.int _, w⟩ => some (.ofWord (.wrap w.val))
  | .int (.signed .w64), ⟨.float _, x⟩ => some (.ofWord (.saturate x.truncate))
  | .float .double, ⟨.int _, w⟩ => some (.ofBinary (.ofInt w.val))
  | .float .double, ⟨.float _, x⟩ => some (.ofBinary x.convert)
  | _, _ => none

/-- The object of a form on an object. -/
def UnaryForm.object? : UnaryForm → Object ε → Option (Object ε)
  | deref, .payload s => some (.payload s)
  | cast k, .payload s => (cast? k s).map .payload
  | nanos, .payload ⟨.duration, d⟩ => some (.payload (.ofWord (.saturate d.nanos)))
  | nanoseconds, .payload ⟨.int (.signed .w64), w⟩ => some (.payload ⟨.duration, .ofWord w⟩)
  | value k, .payload s => if s.kind = k then some (.value (.scalar s)) else none
  | done, o => some (.done o)
  | present, o => some (.present o)
  | mapValue k, .present (.payload s) =>
    if s.kind = k then some (.present (.value (.scalar s))) else none
  | mapValue _, .absent => some .absent
  | orOverflow _, .present o => some (.done o)
  | orOverflow op, .absent => some (.failed (.overflow op))
  | target, .reference (.present s) => some (.present (.value (.scalar s)))
  | target, .reference (.nil _) => some .absent
  | _, _ => none

/-- An operator between two payloads of one kind; only floating numbers are computed with so. -/
def operate? : Operator → Scalar → Scalar → Option Scalar
  | .equal, s, t => (s.related? Kind.equal t).map .ofBool
  | .order o, s, t => (s.related? o.relation t).map .ofBool
  | .compute .add, ⟨.float .double, x⟩, ⟨.float .double, y⟩ => some (.ofBinary (x.add y))
  | .compute .subtract, ⟨.float .double, x⟩, ⟨.float .double, y⟩ =>
    some (.ofBinary (x.subtract y))
  | .compute .multiply, ⟨.float .double, x⟩, ⟨.float .double, y⟩ =>
    some (.ofBinary (x.multiply y))
  | .compute .divide, ⟨.float .double, x⟩, ⟨.float .double, y⟩ => some (.ofBinary (x.divide y))
  | .compute _, _, _ => none

/-- A method called on a payload with another one. -/
def Method.call? : Method → Scalar → Scalar → Option (Object ε)
  | wrappingAdd, ⟨.int (.signed .w64), v⟩, ⟨.int (.signed .w64), w⟩ =>
    some (.payload (.ofWord (v.add w)))
  | wrappingSub, ⟨.int (.signed .w64), v⟩, ⟨.int (.signed .w64), w⟩ =>
    some (.payload (.ofWord (v.subtract w)))
  | wrappingMul, ⟨.int (.signed .w64), v⟩, ⟨.int (.signed .w64), w⟩ =>
    some (.payload (.ofWord (v.multiply w)))
  | checkedAdd, ⟨.duration, d⟩, ⟨.duration, e⟩ => some (.checked .duration (d.add? e))
  | checkedSub, ⟨.duration, d⟩, ⟨.duration, e⟩ => some (.checked .duration (d.subtract? e))
  | checkedAddSigned, ⟨.instant, t⟩, ⟨.duration, d⟩ => some (.checked .instant (t.add? d))
  | checkedSubSigned, ⟨.instant, t⟩, ⟨.duration, d⟩ => some (.checked .instant (t.subtract? d))
  | signedDurationSince, ⟨.instant, t⟩, ⟨.instant, u⟩ => some (.payload ⟨.duration, t.elapsed u⟩)
  | _, _, _ => none

/-- The remainder of two words as a result. -/
def remainder (v w : Word64) : Object ε :=
  if w.val = 0 then .failed .divisionByZero
  else .done (.value (.scalar (.ofWord (.wrap (v.val.tmod w.val)))))

variable [Extension ε]

/-- The object of a form on two objects. -/
def BinaryForm.object? : BinaryForm → Object ε → Object ε → Option (Object ε)
  | operator op, .payload s, .payload t => (operate? op s t).map .payload
  | operator .equal, .elements a, .elements b => (a.equal? b).map .ofTruth
  | call method, .payload s, .payload t => method.call? s t
  | remainder, .payload ⟨.int (.signed .w64), v⟩, .payload ⟨.int (.signed .w64), w⟩ =>
    some (Generated.remainder v w)
  | format, .payload ⟨.text, s⟩, .payload ⟨.text, t⟩ => some (.payload ⟨.text, s ++ t⟩)
  | equal, .value v, .value w => some (.ofTruth (DynamicOps.equal v w))
  | both, .payload ⟨.bool, a⟩, .payload ⟨.bool, b⟩ => some (.ofTruth (a && b))
  | sameLength, .items xs, .elements a => some (.ofTruth (xs.length = a.items.length))
  | allEqual k, .items xs, .elements a =>
    if a.kind = k then
      some (.ofTruth ((xs.zip a.toScalars).all fun p => DynamicOps.equal p.1 (.scalar p.2)))
    else none
  | _, _, _ => none

/-- What the names in generated code stand for. -/
abbrev Scope (ε : Type) : Type :=
  Name → Option (Object ε)

namespace Scope

/-- The scope of the operands. -/
def operands (lhs rhs : Value ε) : Scope ε
  | .lhs => some (.value lhs)
  | .rhs => some (.value rhs)
  | .x | .y | .r => none

/-- The scope with a name for an object, or as it is where nothing is bound. -/
def bind (scope : Scope ε) (n? : Option Name) (o : Object ε) : Scope ε :=
  fun n => if n? = some n then some o else scope n

end Scope

/-- The object of an expression under a scope. -/
def Expression.eval? (scope : Scope ε) : Expression → Option (Object ε)
  | name n => scope n
  | unary form e => (e.eval? scope).bind form.object?
  | binary form e f => (e.eval? scope).bind fun o => (f.eval? scope).bind (form.object? o)

/-- The part of an object that a shape binds, if the object has the shape. -/
def Shape.bound? : Shape → Object ε → Option (Object ε)
  | value k, .value (.scalar s) => if s.kind = k then some (.payload s) else none
  | list, .value (.list xs) => some (.items xs)
  | array k, .value (.array a) => if a.kind = k then some (.elements a) else none
  | ref, .value (.ref r) => some (.reference r)
  | present k, .present (.value (.scalar s)) => if s.kind = k then some (.payload s) else none
  | _, _ => none

mutual

/-- The object that code gives under a scope. -/
def Code.run? (scope : Scope ε) : Code → Option (Object ε)
  | .answer e => e.eval? scope
  | .select scrutinee arms => (scrutinee.eval? scope).bind fun o => runArms? scope o arms

/-- The object that the first arm gives whose shape an object has. -/
def runArms? (scope : Scope ε) (o : Object ε)
    : List MatchArm → Option (Object ε)
  | [] => some .absent
  | (shape, n?, code) :: arms =>
    match shape.bound? o with
    | some part => code.run? (scope.bind n? part)
    | none => runArms? scope o arms

end

end DynamicOps.Generated
