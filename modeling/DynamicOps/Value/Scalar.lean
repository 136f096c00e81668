import DynamicOps.Registry.Operator
import DynamicOps.Number.BinaryArithmetic
import DynamicOps.Time.Instant

/-!
Scalars: a registry kind with a payload of that kind. Payloads of one kind are compared natively;
integers, floating numbers, and durations also convert to the domains of mixed arithmetic.
-/

namespace DynamicOps

/-- The payloads of a kind. -/
abbrev Kind.Payload : Kind → Type
  | .int k => Word k
  | .float p => Binary p.format
  | .text => String
  | .bool => Bool
  | .instant => Instant
  | .duration => Duration

/-- A relation between the payloads of every kind. -/
abbrev PayloadRelation : Type :=
  (k : Kind) → k.Payload → k.Payload → Bool

/-- Equality within a kind; floating numbers compare as numbers, not as representations. -/
def Kind.equal : PayloadRelation
  | .int _, x, y => x.val = y.val
  | .float _, x, y => x.equal y
  | .text, x, y => x = y
  | .bool, x, y => x = y
  | .instant, x, y => x = y
  | .duration, x, y => x = y

/-- Equality of sequences within a kind: the same length, and equal elements. -/
def Kind.equalItems (k : Kind) : List k.Payload → List k.Payload → Bool
  | [], [] => true
  | x :: xs, y :: ys => k.equal x y && equalItems k xs ys
  | _, _ => false

/-- The order within a kind; texts are ordered by their characters. -/
def Kind.less : PayloadRelation
  | .int _, x, y => x.val < y.val
  | .float _, x, y => x.less y
  | .text, x, y => x < y
  | .bool, x, y => !x && y
  | .instant, x, y => x.less y
  | .duration, x, y => x.nanos < y.nanos

/-- An ordering within a kind, from the order and equality of the kind. -/
def Ordered.relation : Ordered → PayloadRelation
  | .less, k, x, y => k.less x y
  | .more, k, x, y => k.less y x
  | .lessOrEqual, k, x, y => k.less x y || k.equal x y
  | .moreOrEqual, k, x, y => k.less y x || k.equal x y

/-- A value of a registry kind. -/
structure Scalar where
  kind : Kind
  payload : kind.Payload

namespace Scalar

/-- A 64-bit signed integer as a scalar. -/
def ofWord (w : Word64) : Scalar :=
  ⟨.i64, w⟩

/-- A double precision number as a scalar. -/
def ofBinary (x : Binary64) : Scalar :=
  ⟨.f64, x⟩

/-- A truth value as a scalar. -/
def ofBool (b : Bool) : Scalar :=
  ⟨.bool, b⟩

/-- Relates two scalars of one kind. -/
def related? (rel : PayloadRelation) (s t : Scalar) : Option Bool :=
  if h : s.kind = t.kind then some (rel t.kind (h ▸ s.payload) t.payload) else none

/-- Two scalars have the same kind and equal payloads. -/
def same (s t : Scalar) : Bool :=
  (s.related? Kind.equal t).getD false

/-- A number or duration as a 64-bit signed integer. Integers wrap around and floating numbers
are truncated to the nearest word, as durations are in nanoseconds.
-/
def toWord? : Scalar → Option Word64
  | ⟨.int _, w⟩ => some (.wrap w.val)
  | ⟨.float _, x⟩ => some (.saturate x.truncate)
  | ⟨.duration, d⟩ => some d.toWord
  | _ => none

/-- A number or duration as a double precision number. -/
def toBinary? : Scalar → Option Binary64
  | ⟨.int _, w⟩ => some (.ofInt w.val)
  | ⟨.float _, x⟩ => some x.convert
  | ⟨.duration, d⟩ => some (.ofInt d.toWord.val)
  | _ => none

end Scalar

end DynamicOps
