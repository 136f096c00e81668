import DynamicOps.Registry.Kind

/-!
The ten binary operators: equality, four orderings, and five arithmetic operators. The three
groups are separate types because they are resolved differently: equality always has an answer,
an ordering has an answer or is invalid, and arithmetic has a value or an error.
-/

namespace DynamicOps

/-- The orderings. -/
inductive Ordered
  | less
  | more
  | lessOrEqual
  | moreOrEqual
deriving DecidableEq

/-- The arithmetic operators. -/
inductive Arithmetic
  | add
  | subtract
  | multiply
  | divide
  | modulo
deriving DecidableEq

/-- A binary operator over dynamic values. -/
inductive Operator
  | equal
  | order (relation : Ordered)
  | compute (operation : Arithmetic)
deriving DecidableEq

namespace Operator

/-- Every operator in table order. -/
def all : List Operator :=
  [ equal,
    order .less, order .more, order .lessOrEqual, order .moreOrEqual,
    compute .add, compute .subtract, compute .multiply, compute .divide, compute .modulo ]

/-- The symbol of an operator, which is also its display form. -/
def symbol : Operator → String
  | equal => "=="
  | order .less => "<"
  | order .more => ">"
  | order .lessOrEqual => "<="
  | order .moreOrEqual => ">="
  | compute .add => "+"
  | compute .subtract => "-"
  | compute .multiply => "*"
  | compute .divide => "/"
  | compute .modulo => "%"

/-- The name of an operator. -/
def name : Operator → String
  | equal => "equal"
  | order .less => "less"
  | order .more => "more"
  | order .lessOrEqual => "less_or_equal"
  | order .moreOrEqual => "more_or_equal"
  | compute .add => "add"
  | compute .subtract => "subtract"
  | compute .multiply => "multiply"
  | compute .divide => "divide"
  | compute .modulo => "modulo"

/-- The identifier of an operator in generated text. -/
def variant : Operator → String
  | equal => "Equal"
  | order .less => "Less"
  | order .more => "More"
  | order .lessOrEqual => "LessOrEqual"
  | order .moreOrEqual => "MoreOrEqual"
  | compute .add => "Add"
  | compute .subtract => "Subtract"
  | compute .multiply => "Multiply"
  | compute .divide => "Divide"
  | compute .modulo => "Modulo"

/-- The operator with a given name or symbol. -/
def ofName? (text : String) : Option Operator :=
  all.find? fun op => op.name = text || op.symbol = text

/-- The operator answers with a truth value. -/
def isComparison : Operator → Bool
  | equal => true
  | order _ => true
  | compute _ => false

/-- The kinds that are paired with each other under an operator. -/
def pairwiseKinds : Operator → List Kind
  | compute .multiply => Registry.numericWithDuration
  | _ => Registry.numeric

end Operator

end DynamicOps
