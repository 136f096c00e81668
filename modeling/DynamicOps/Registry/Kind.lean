/-!
The primitive kinds a dynamic value may hold, their families, and the registry that lists them.
Registry order is unsigned, signed, floating, then distinguished kinds; every table follows it.
-/

namespace DynamicOps

/-- The storage widths of the integer kinds; `size` is the width of an address. -/
inductive Width
  | size
  | w8
  | w16
  | w32
  | w64
deriving DecidableEq

namespace Width

/-- The number of different integers of a width; addresses have 64 bits. -/
def count : Width → Nat
  | size => 18446744073709551616
  | w8 => 256
  | w16 => 65536
  | w32 => 4294967296
  | w64 => 18446744073709551616

/-- The text that a width adds to the letter of an integer kind. -/
def suffix : Width → String
  | size => "size"
  | w8 => "8"
  | w16 => "16"
  | w32 => "32"
  | w64 => "64"

/-- Every width in registry order. -/
def all : List Width :=
  [size, w8, w16, w32, w64]

end Width

/-- The ten integer kinds, by signedness and width. -/
inductive IntKind
  | unsigned (width : Width)
  | signed (width : Width)
deriving DecidableEq

namespace IntKind

/-- The width of an integer kind. -/
def width : IntKind → Width
  | unsigned w => w
  | signed w => w

/-- The kind holds negative integers. -/
def isSigned : IntKind → Bool
  | unsigned _ => false
  | signed _ => true

/-- The smallest integer of a kind. -/
def least : IntKind → Int
  | unsigned _ => 0
  | signed w => -(w.count / 2 : Nat)

/-- The largest integer of a kind. -/
def greatest : IntKind → Int
  | unsigned w => (w.count - 1 : Nat)
  | signed w => (w.count / 2 - 1 : Nat)

/-- The diagnostic name of an integer kind. -/
def name : IntKind → String
  | unsigned w => "u" ++ w.suffix
  | signed w => "i" ++ w.suffix

/-- The identifier of an integer kind in generated text. -/
def variant : IntKind → String
  | unsigned .size => "Uint"
  | unsigned w => "U" ++ w.suffix
  | signed .size => "Int"
  | signed w => "I" ++ w.suffix

end IntKind

/-- The two floating precisions. -/
inductive Precision
  | single
  | double
deriving DecidableEq

/-- One primitive shape that a dynamic value may hold. -/
inductive Kind
  | int (kind : IntKind)
  | float (precision : Precision)
  | text
  | bool
  | instant
  | duration
deriving DecidableEq

/-- The partition of the registry that promotion works with. -/
inductive Family
  | unsigned
  | signed
  | float
  | distinguished
deriving DecidableEq

/-- The display form of a family. -/
def Family.name : Family → String
  | unsigned => "unsigned"
  | signed => "signed"
  | float => "float"
  | distinguished => "distinguished"

namespace Kind

/-- The 64-bit signed kind, the domain of mixed integer arithmetic. -/
abbrev i64 : Kind :=
  .int (.signed .w64)

/-- The double precision kind, the domain of floating arithmetic. -/
abbrev f64 : Kind :=
  .float .double

/-- The name used in diagnostics, literals, and the kind listing. -/
def name : Kind → String
  | int k => k.name
  | float .single => "f32"
  | float .double => "f64"
  | text => "string"
  | bool => "bool"
  | instant => "instant"
  | duration => "duration"

/-- The type name of a kind's payload in generated text. -/
def payloadName : Kind → String
  | int k => k.name
  | float .single => "f32"
  | float .double => "f64"
  | text => "String"
  | bool => "bool"
  | instant => "DateTime<Utc>"
  | duration => "TimeDelta"

/-- The identifier of a kind in generated text. -/
def variant : Kind → String
  | int k => k.variant
  | float .single => "F32"
  | float .double => "F64"
  | text => "Text"
  | bool => "Bool"
  | instant => "Instant"
  | duration => "Duration"

/-- The family of a kind. -/
def family : Kind → Family
  | int (.unsigned _) => .unsigned
  | int (.signed _) => .signed
  | float _ => .float
  | text | bool | instant | duration => .distinguished

/-- The kind holds integers. -/
def isInteger : Kind → Bool
  | int _ => true
  | _ => false

/-- The kind holds floating numbers. -/
def isFloat : Kind → Bool
  | float _ => true
  | _ => false

/-- The kind holds integers or floating numbers. -/
def isNumeric (k : Kind) : Bool :=
  k.isInteger || k.isFloat

/-- The kind takes part in promotion: every numeric kind and durations. -/
def isArithmetic (k : Kind) : Bool :=
  k.isNumeric || k = duration

end Kind

namespace Registry

/-- The unsigned integer kinds. -/
def unsigned : List Kind :=
  Width.all.map fun w => .int (.unsigned w)

/-- The signed integer kinds. -/
def signed : List Kind :=
  Width.all.map fun w => .int (.signed w)

/-- The floating kinds. -/
def floating : List Kind :=
  [.float .single, .float .double]

/-- The integer and floating kinds. -/
def numeric : List Kind :=
  unsigned ++ signed ++ floating

/-- The numeric kinds followed by durations, which can be multiplied like numbers. -/
def numericWithDuration : List Kind :=
  numeric ++ [.duration]

/-- The kinds that promotion does not order among themselves. -/
def distinguished : List Kind :=
  [.text, .bool, .instant, .duration]

/-- Every kind in registry order. -/
def all : List Kind :=
  numeric ++ distinguished

end Registry

/-- The kind with a given diagnostic name. -/
def Kind.ofName? (name : String) : Option Kind :=
  Registry.all.find? (·.name = name)

/-- Array shapes: heterogeneous, or of one registry kind. -/
inductive ArrayKind
  | any
  | of (kind : Kind)
deriving DecidableEq

namespace ArrayKind

/-- The display form of an array shape. -/
def name : ArrayKind → String
  | any => "[]any"
  | of k => "[]" ++ k.name

/-- Every array shape, the heterogeneous one first. -/
def all : List ArrayKind :=
  any :: Registry.all.map of

end ArrayKind

end DynamicOps
