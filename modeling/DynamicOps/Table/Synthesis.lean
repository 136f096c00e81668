import DynamicOps.Registry.Promotion
import DynamicOps.Table.Basic

/-!
The complete table of every operator, enumerated from the registry and the promotion lattice.
Pairwise numeric cases come first, then the distinguished kinds, then, for equality, the arrays.
-/

namespace DynamicOps

/-- A pair of patterns with its body. -/
structure Cell where
  lhs : Pattern
  rhs : Pattern
  body : Body
deriving DecidableEq

namespace Synthesis

/-- A cell for two scalars. -/
def scalars (lhs rhs : Kind) (body : Body) : Cell :=
  ⟨.scalar lhs, .scalar rhs, body⟩

/-- The cell for a scalar against a reference to its own kind. -/
def againstReference (k : Kind) : Cell :=
  ⟨.scalar k, .refTo k, .native⟩

/-- Equality of numbers: the same kind, bare and by reference, then every other kind. -/
def numericEquality : List Cell :=
  Registry.numeric.flatMap fun a =>
    [scalars a a .native, againstReference a]
      ++ Registry.numeric.filterMap fun b =>
        if a = b then none
        else (promote .equal a b).map fun domain => scalars a b (.promote domain)

/-- The cells of an operator's pairwise kinds. A comparison within one kind stays native, so that
wide unsigned integers keep their order.
-/
def pairwise (op : Operator) : List Cell :=
  op.pairwiseKinds.flatMap fun a => op.pairwiseKinds.filterMap fun b =>
    (promote op a b).map fun domain =>
      scalars a b (if op.isComparison && a = b then .native else .promote domain)

/-- The cells of text, truth values, instants, and durations. -/
def distinguished : Operator → List Cell
  | .equal => Registry.distinguished.flatMap fun k => [scalars k k .native, againstReference k]
  | .order _ => (Registry.distinguished.filter (· ≠ .bool)).map fun k => scalars k k .native
  | .compute .add =>
    [ scalars .text .text .concat,
      scalars .instant .duration .shift,
      scalars .duration .duration .checked,
      scalars .duration .instant .shift ]
  | .compute .subtract =>
    [ scalars .instant .instant .elapsed,
      scalars .instant .duration .shift,
      scalars .duration .duration .checked ]
  | .compute _ => []

/-- Equality of arrays: heterogeneous against each homogeneous one, then the latter as left. -/
def arrays : List Cell :=
  (Registry.all.map fun k => ⟨.array .any, .array (.of k), .elementwise⟩)
    ++ Registry.all.flatMap fun k =>
      [⟨.array (.of k), .array .any, .swapped⟩, ⟨.array (.of k), .array (.of k), .native⟩]

/-- Every cell of an operator in table order. -/
def cells : Operator → List Cell
  | .equal => numericEquality ++ distinguished .equal ++ arrays
  | op => pairwise op ++ distinguished op

end Synthesis

/-- A table with the given cells pushed one after the other. -/
def Table.ofCells (op : Operator) (cells : List Cell) : Table :=
  cells.foldl (fun t c => t.push c.lhs c.rhs c.body) (.empty op)

/-- The complete table of an operator. -/
def synthesize (op : Operator) : Table :=
  .ofCells op (Synthesis.cells op)

end DynamicOps
