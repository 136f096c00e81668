import DynamicOps.Time.Calendar
import DynamicOps.Time.Instant

/-!
Timestamps: the text of an instant as date, time of day, and offset from universal time. Printing
always uses universal time and the fewest of 0, 3, 6, or 9 fraction digits; reading takes any
offset and any number of fraction digits, of which nine count.
-/

namespace DynamicOps.Timestamp

/-- A year in four digits, or with a sign and at least four digits outside of them. -/
def year (y : Int) : List Char :=
  if 0 ≤ y ∧ y ≤ 9999 then Text.padded 4 y.toNat
  else (if y < 0 then '-' else '+') :: Text.padded 4 y.natAbs

/-- The fraction of a second in the fewest groups of three digits. -/
def fraction (nanos : Nat) : List Char :=
  if nanos = 0 then []
  else if nanos % 1000000 = 0 then '.' :: Text.padded 3 (nanos / 1000000)
  else if nanos % 1000 = 0 then '.' :: Text.padded 6 (nanos / 1000)
  else '.' :: Text.padded 9 nanos

/-- The characters of an instant in universal time; a leap second is second sixty. -/
def render (t : Instant) : List Char :=
  let date := Date.ofDays (t.secs / 86400)
  let second := t.secondOfDay.toNat
  let leap := if t.isLeap then 1 else 0
  year date.year ++ '-' :: Text.padded 2 date.month ++ '-' :: Text.padded 2 date.day
    ++ 'T' :: Text.padded 2 (second / 3600) ++ ':' :: Text.padded 2 (second / 60 % 60)
    ++ ':' :: Text.padded 2 (second % 60 + leap) ++ fraction (t.nanos % 1000000000) ++ ['Z']

/-- A number of exactly so many digits at the start of a text, and the rest. -/
def number? (width : Nat) (cs : List Char) : Option (Nat × List Char) :=
  let digits := cs.take width
  if digits.length = width && digits.all Char.isDigit then
    some (Text.valueOf digits, cs.drop width)
  else none

/-- The rest of a text after a character that it has to start with. -/
def expect? (c : Char) : List Char → Option (List Char)
  | [] => none
  | d :: cs => if d = c then some cs else none

/-- Nanoseconds from fraction digits, of which the first nine count. -/
def nanosOf (digits : List Char) : Nat :=
  let kept := digits.take 9
  Text.valueOf kept * Nat.pow 10 (9 - kept.length)

/-- An optional fraction of a second, which has at least one digit after its point. -/
def fraction? : List Char → Option (Nat × List Char)
  | '.' :: cs =>
    let digits := cs.takeWhile Char.isDigit
    if digits.isEmpty then none else some (nanosOf digits, cs.dropWhile Char.isDigit)
  | cs => some (0, cs)

/-- The hours and minutes of an offset, in seconds. -/
def offsetMagnitude? (cs : List Char) : Option Int := do
  let (hours, cs) ← number? 2 cs
  let cs ← expect? ':' cs
  let (minutes, cs) ← number? 2 cs
  if cs.isEmpty && hours ≤ 23 && minutes ≤ 59 then some (hours * 3600 + minutes * 60) else none

/-- The offset from universal time that ends a timestamp, in seconds. -/
def offset? : List Char → Option Int
  | ['Z'] => some 0
  | ['z'] => some 0
  | '+' :: cs => offsetMagnitude? cs
  | '-' :: cs => (offsetMagnitude? cs).map (-·)
  | '\u2212' :: cs => (offsetMagnitude? cs).map (-·)
  | _ => none

/-- The rest of a text after the character between date and time. -/
def separator? : List Char → Option (List Char)
  | 'T' :: cs => some cs
  | 't' :: cs => some cs
  | ' ' :: cs => some cs
  | _ => none

/-- The date at the start of a text, if the calendar has it, and the rest. -/
def date? (cs : List Char) : Option (Date × List Char) := do
  let (year, cs) ← number? 4 cs
  let cs ← expect? '-' cs
  let (month, cs) ← number? 2 cs
  let cs ← expect? '-' cs
  let (day, cs) ← number? 2 cs
  let date : Date := ⟨year, month, day⟩
  if date.isValid then some (date, cs) else none

/-- A time of day: its second, whether that is a leap second, and its nanoseconds. -/
structure TimeOfDay where
  second : Nat
  leap : Bool
  nanos : Nat

/-- The time of day at the start of a text, and the rest; second sixty is a leap second. -/
def timeOfDay? (cs : List Char) : Option (TimeOfDay × List Char) := do
  let (hour, cs) ← number? 2 cs
  let cs ← expect? ':' cs
  let (minute, cs) ← number? 2 cs
  let cs ← expect? ':' cs
  let (second, cs) ← number? 2 cs
  let (nanos, cs) ← fraction? cs
  if hour ≤ 23 && minute ≤ 59 && second ≤ 60 then
    some (⟨hour * 3600 + minute * 60 + min second 59, second = 60, nanos⟩, cs)
  else none

/-- The instant that a timestamp stands for. -/
def parse? (cs : List Char) : Option Instant := do
  let (date, cs) ← date? cs
  let cs ← separator? cs
  let (time, cs) ← timeOfDay? cs
  let offset ← offset? cs
  let nanos := if time.leap then time.nanos + 1000000000 else time.nanos
  Instant.ofParts? (date.toDays * 86400 + time.second - offset) nanos

end DynamicOps.Timestamp
