import DynamicOps.Registry.Operator

/-!
Case tables: for one operator, which pairs of operand shapes it accepts and what it does with
them. Cases are grouped in arms by the pattern of the left operand, in order of first use.
-/

namespace DynamicOps

/-- The shape of an operand on one side of a case. -/
inductive Pattern
  | scalar (kind : Kind)
  | refTo (kind : Kind)
  | array (kind : ArrayKind)
deriving DecidableEq

/-- The display form of a pattern. -/
def Pattern.name : Pattern → String
  | scalar k => k.name
  | refTo k => "&" ++ k.name
  | array k => k.name

/-- What is done with a pair of operands of matching shapes. -/
inductive Body
  /-- The operator on the payloads as they are. -/
  | native
  /-- The operator after both payloads were converted to a kind. -/
  | promote (domain : Kind)
  /-- One text after the other. -/
  | concat
  /-- An instant moved by a duration. -/
  | shift
  /-- The duration between two instants. -/
  | elapsed
  /-- Arithmetic of durations that reports leaving the range. -/
  | checked
  /-- A heterogeneous array against a homogeneous one, element by element. -/
  | elementwise
  /-- A homogeneous array against a heterogeneous one, with the operands exchanged. -/
  | swapped
deriving DecidableEq

/-- The display form of a body. -/
def Body.name : Body → String
  | native => "native"
  | promote domain => "promote:" ++ domain.name
  | concat => "concat"
  | shift => "shift"
  | elapsed => "elapsed"
  | checked => "checked"
  | elementwise => "elementwise"
  | swapped => "mirror"

/-- A right pattern and what is done when it matches. -/
structure Case where
  rhs : Pattern
  body : Body
deriving DecidableEq

/-- The cases that share a left pattern. -/
structure Arm where
  lhs : Pattern
  cases : List Case
deriving DecidableEq

/-- The cases of one operator. -/
structure Table where
  op : Operator
  arms : List Arm
deriving DecidableEq

/-- Adds a case to the first arm with its left pattern, or to a new last arm. -/
def insertCase (lhs : Pattern) (case : Case) : List Arm → List Arm
  | [] => [⟨lhs, [case]⟩]
  | arm :: arms =>
    if arm.lhs = lhs then ⟨arm.lhs, arm.cases ++ [case]⟩ :: arms
    else arm :: insertCase lhs case arms

namespace Table

/-- The table of an operator without any case. -/
def empty (op : Operator) : Table :=
  ⟨op, []⟩

/-- Appends a case, opening a new arm when its left pattern has none yet. -/
def push (t : Table) (lhs rhs : Pattern) (body : Body) : Table :=
  ⟨t.op, insertCase lhs ⟨rhs, body⟩ t.arms⟩

/-- The body of the first case for a pair in the first arm of its left pattern. -/
def get? (t : Table) (lhs rhs : Pattern) : Option Body :=
  (t.arms.find? (·.lhs = lhs)).bind fun arm =>
    (arm.cases.find? (·.rhs = rhs)).map (·.body)

/-- The number of cases in all arms. -/
def caseCount (t : Table) : Nat :=
  (t.arms.flatMap (·.cases)).length

end Table

end DynamicOps
