import DynamicOps.Number.Binary
import DynamicOps.Text.Decimal

/-!
The shortest decimal that reads back as a floating number: among the decimals in the interval of
reals that round to it, one with the fewest digits and of these the nearest, the even one in the
middle. Grids of decimals are searched from the coarsest to finer ones.
-/

namespace DynamicOps

/-- A natural number times a power of ten. -/
structure Decimal where
  significand : Nat
  exponent : Int
deriving DecidableEq

namespace Shortest

/-- A finite magnitude and the ends of its rounding interval, in quarters of its last place. -/
structure Interval where
  low : Nat
  middle : Nat
  high : Nat
  exponent : Int
  closed : Bool

/-- The rounding interval; it is narrower below a power of two, and closed when it is even. -/
def interval (f : Format) (rank : Nat) : Interval :=
  let m := f.significand rank
  let narrow := rank % f.fractions = 0 && f.fractions < rank
  { low := if narrow then 4 * m - 1 else 4 * m - 2
    middle := 4 * m
    high := 4 * m + 2
    exponent := f.exponent rank - 2
    closed := m % 2 = 0 }

/-- An endpoint or the middle of an interval as a numerator over the grid's denominator. -/
def numerator (i : Interval) (grid : Int) (n : Nat) : Nat :=
  Format.scale n i.exponent * Nat.pow 10 (-grid).toNat

/-- The common denominator of a grid. -/
def denominator (i : Interval) (grid : Int) : Nat :=
  Format.scale 1 (-i.exponent) * Nat.pow 10 grid.toNat

/-- A point of a grid lies in the interval. -/
def contains (i : Interval) (grid : Int) (point : Nat) : Bool :=
  let value := point * denominator i grid
  let low := numerator i grid i.low
  let high := numerator i grid i.high
  if i.closed then low ≤ value && value ≤ high else low < value && value < high

/-- The point of a grid in the interval that is nearest to its middle. -/
def onGrid? (i : Interval) (grid : Int) : Option Nat :=
  let num := numerator i grid i.middle
  let den := denominator i grid
  let below := num / den
  match contains i grid below, contains i grid (below + 1) with
  | true, true => some (Format.roundedQuotient num den)
  | true, false => some below
  | false, true => some (below + 1)
  | false, false => none

/-- Searches grids from a coarse one on, each ten times as fine as the one before. -/
def search (i : Interval) : Nat → Int → Decimal
  | 0, grid => ⟨numerator i grid i.middle / denominator i grid, grid⟩
  | steps + 1, grid =>
    match onGrid? i grid with
    | some point => ⟨point, grid⟩
    | none => search i steps (grid - 1)

end Shortest

/-- The shortest decimal of a finite positive magnitude. The first grid is coarser than the number,
and no grid needs more digits than the fraction has bits.
-/
def shortestDecimal (f : Format) (rank : Nat) : Decimal :=
  let i := Shortest.interval f rank
  let bits : Int := i.middle.log2 + 1 + i.exponent
  Shortest.search i f.fractionBits (bits * 30103 / 100000 + 2)

end DynamicOps
