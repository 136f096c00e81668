import DynamicOps.Number.Word
import DynamicOps.Text.Decimal

/-!
Signed spans of time in whole nanoseconds. The range ends at the milliseconds that fit a 64-bit
signed integer, on both sides alike; sums and differences outside of it do not exist. They are
formed of whole seconds and of nanoseconds apart, with a carry between the two.
-/

namespace DynamicOps

/-- A span of time of at most 9223372036854775807 milliseconds in either direction. -/
structure Duration where
  nanos : Int
  lower : -(9223372036854775807 * 1000000) ≤ nanos
  upper : nanos ≤ 9223372036854775807 * 1000000
deriving DecidableEq

namespace Duration

/-- The longest representable span in nanoseconds. -/
def limit : Int :=
  9223372036854775807 * 1000000

/-- The span of a number of nanoseconds, if it is in range. -/
def ofNanos? (n : Int) : Option Duration :=
  if h : -(9223372036854775807 * 1000000) ≤ n ∧ n ≤ 9223372036854775807 * 1000000 then
    some ⟨n, h.1, h.2⟩
  else none

/-- The empty span. -/
def zero : Duration :=
  ⟨0, by decide, by decide⟩

/-- The span of a word of nanoseconds, which is always in range. -/
def ofWord (w : Word64) : Duration where
  nanos := w.val
  lower := by
    have := w.least_le
    simp only [IntKind.least, Width.count] at this
    omega
  upper := by
    have := w.le_greatest
    simp only [IntKind.greatest, Width.count] at this
    omega

/-- The nanoseconds of a span as a word, the nearest one for long spans. -/
def toWord (d : Duration) : Word64 :=
  Word.saturate d.nanos

/-- The whole seconds of a span, towards the past. -/
def seconds (d : Duration) : Int :=
  d.nanos / 1000000000

/-- The nanoseconds of a span after its whole seconds. -/
def rest (d : Duration) : Int :=
  d.nanos % 1000000000

/-- The span of some seconds and less than a second of nanoseconds, if the two are not beyond the
parts of the longest spans.
-/
def ofParts? (seconds rest : Int) : Option Duration :=
  if h : 0 ≤ rest ∧ rest < 1000000000
      ∧ -9223372036854776 ≤ seconds ∧ (seconds = -9223372036854776 → 193000000 ≤ rest)
      ∧ seconds ≤ 9223372036854775 ∧ (seconds = 9223372036854775 → rest ≤ 807000000) then
    some ⟨seconds * 1000000000 + rest, by omega, by omega⟩
  else none

/-- The span of some seconds and of nanoseconds that are carried to or borrowed from them. -/
def carried? (seconds rest : Int) : Option Duration :=
  if 1000000000 ≤ rest then ofParts? (seconds + 1) (rest - 1000000000)
  else if rest < 0 then ofParts? (seconds - 1) (rest + 1000000000)
  else ofParts? seconds rest

/-- The sum of two spans, part by part, if it is in range. -/
def add? (d e : Duration) : Option Duration :=
  carried? (d.seconds + e.seconds) (d.rest + e.rest)

/-- The difference of two spans, part by part, if it is in range. -/
def subtract? (d e : Duration) : Option Duration :=
  carried? (d.seconds - e.seconds) (d.rest - e.rest)

/-- The span in the other direction. -/
def negate (d : Duration) : Duration where
  nanos := -d.nanos
  lower := by
    have := d.upper
    omega
  upper := by
    have := d.lower
    omega

/-- The fraction of a second after a point, without trailing zeros. -/
def fraction (nanos : Nat) : List Char :=
  if nanos = 0 then []
  else '.' :: ((Text.padded 9 nanos).reverse.dropWhile (· = '0')).reverse

/-- The span in seconds, or as zero days when it is empty. -/
def text (d : Duration) : String :=
  if d.nanos = 0 then "P0D"
  else
    let magnitude := d.nanos.natAbs
    (if d.nanos < 0 then "-PT" else "PT")
      ++ String.ofList (Text.digits (magnitude / 1000000000) ++ fraction (magnitude % 1000000000))
      ++ "S"

end Duration

end DynamicOps
