import DynamicOps.Table.Basic
import DynamicOps.Value.Scalar

/-!
Dynamically typed values: nil, scalars, homogeneous and heterogeneous arrays, records, references
to scalars, and values of a type of extensions that the registry does not know. Patterns of case
tables are matched against values here.
-/

namespace DynamicOps

/-- The numeric view of an integer, which keeps whether its type is signed. -/
inductive IntegerView
  | signed (n : Int)
  | unsigned (n : Nat)
deriving DecidableEq

namespace IntegerView

/-- The family of the integer's type. -/
def family : IntegerView → Family
  | signed _ => .signed
  | unsigned _ => .unsigned

/-- The integer itself. -/
def val : IntegerView → Int
  | signed n => n
  | unsigned n => n

end IntegerView

/-- What a type has to offer so that its elements can be used as values. -/
class Extension (ε : Type) where
  /-- The name used in diagnostics. -/
  typeName : ε → String
  /-- The numeric view of integer-like elements. -/
  integer? : ε → Option IntegerView
  /-- Structural equality. -/
  equals : ε → ε → Bool

/-- A homogeneous sequence of payloads of one kind. -/
structure TypedArray where
  kind : Kind
  items : List kind.Payload

namespace TypedArray

/-- The elements of a homogeneous sequence as scalars. -/
def toScalars (a : TypedArray) : List Scalar :=
  a.items.map fun x => ⟨a.kind, x⟩

/-- Equality of two sequences of one kind; sequences of different kinds do not compare. -/
def equal? (a b : TypedArray) : Option Bool :=
  if h : a.kind = b.kind then some (b.kind.equalItems (h ▸ a.items) b.items) else none

end TypedArray

/-- A reference to a scalar; a nil reference still has a kind. -/
inductive Reference
  | nil (kind : Kind)
  | present (target : Scalar)

namespace Reference

/-- The kind that a reference was declared with. -/
def kind : Reference → Kind
  | nil k => k
  | present s => s.kind

/-- The reference has no target. -/
def isNil : Reference → Bool
  | nil _ => true
  | present _ => false

end Reference

/-- A dynamically typed value with extensions of some type. -/
inductive Value (ε : Type)
  | nil
  | scalar (s : Scalar)
  | array (a : TypedArray)
  | list (items : List (Value ε))
  | record (fields : List (String × Value ε))
  | ref (r : Reference)
  | extension (x : ε)

namespace Value

variable {ε : Type}

/-- A truth value. -/
def ofBool (b : Bool) : Value ε :=
  .scalar (.ofBool b)

/-- The registry kind of a scalar; other values have none. -/
def kind? : Value ε → Option Kind
  | scalar s => some s.kind
  | _ => none

/-- The scalar that a value is. -/
def scalar? : Value ε → Option Scalar
  | scalar s => some s
  | _ => none

/-- The value is a reference. -/
def isRef : Value ε → Bool
  | ref _ => true
  | _ => false

/-- The value is nil or a reference without a target. -/
def isAbsent : Value ε → Bool
  | nil => true
  | ref r => r.isNil
  | _ => false

/-- The reference to a scalar value; other values cannot be referred to. -/
def reference? : Value ε → Option Reference
  | scalar s => some (.present s)
  | _ => none

/-- The target of a present reference, and any other value itself. -/
def resolve : Value ε → Value ε
  | ref (.present s) => scalar s
  | v => v

/-- The name of a value's type in diagnostics. -/
def typeName [Extension ε] : Value ε → String
  | nil => "nil"
  | scalar s => s.kind.name
  | array a => (ArrayKind.of a.kind).name
  | list _ => ArrayKind.any.name
  | record _ => "record"
  | ref r => "&" ++ r.kind.name
  | extension x => Extension.typeName x

/-- The numeric view of integer scalars and of integer-like extensions. -/
def integer? [Extension ε] : Value ε → Option IntegerView
  | scalar ⟨.int (.unsigned _), w⟩ => some (.unsigned w.val.toNat)
  | scalar ⟨.int (.signed _), w⟩ => some (.signed w.val)
  | extension x => Extension.integer? x
  | _ => none

end Value

/-- A value has the shape of a pattern. -/
def Pattern.accepts {ε : Type} : Pattern → Value ε → Bool
  | scalar k, .scalar s => s.kind = k
  | refTo k, .ref (.present s) => s.kind = k
  | array .any, .list _ => true
  | array (.of k), .array a => a.kind = k
  | _, _ => false

/-- The body of the first case that accepts the right value in the first arm that accepts the
left one.
-/
def Table.select? {ε : Type} (t : Table) (lhs rhs : Value ε) : Option Body :=
  (t.arms.find? (·.lhs.accepts lhs)).bind fun arm =>
    (arm.cases.find? (·.rhs.accepts rhs)).map (·.body)

end DynamicOps
