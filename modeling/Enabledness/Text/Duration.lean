/-!
# Durations as text

A duration is written in the largest of the units `s`, `ms`, `µs` and `ns` in which its whole part
is not zero, with the fraction that is left, without trailing zeros.
-/

namespace Enabledness

/-- A span of time in nanoseconds. -/
structure Duration where
  /-- The length in nanoseconds. -/
  nanos : Nat
deriving DecidableEq

namespace Duration

/-- The duration of some milliseconds. -/
def ofMillis (n : Nat) : Duration := ⟨n * 1000000⟩

/-- The duration of some seconds. -/
def ofSecs (n : Nat) : Duration := ⟨n * 1000000000⟩

/-- The whole number of milliseconds in a duration. -/
def toMillis (d : Duration) : Nat := d.nanos / 1000000

/-- The decimal digits of a fraction, `width` of them, without the zeros at the end. -/
def fractionDigits (width n : Nat) : List Char :=
  let digits := Nat.toDigits 10 n
  let padded := List.replicate (width - digits.length) '0' ++ digits
  (padded.reverse.dropWhile (· == '0')).reverse

/-- Write a number of nanoseconds in a unit of `10 ^ width` nanoseconds. -/
def inUnit (width nanos : Nat) (unit : String) : String :=
  let fraction := fractionDigits width (nanos % Nat.pow 10 width)
  let point := if fraction.isEmpty then "" else "." ++ String.ofList fraction
  Nat.repr (nanos / Nat.pow 10 width) ++ point ++ unit

/-- The duration as text, such as `1.05ms`. -/
def text (d : Duration) : String :=
  if 1000000000 ≤ d.nanos then inUnit 9 d.nanos "s"
  else if 1000000 ≤ d.nanos then inUnit 6 d.nanos "ms"
  else if 1000 ≤ d.nanos then inUnit 3 d.nanos "µs"
  else inUnit 0 d.nanos "ns"

/-- The duration in seconds with two places, rounded to the nearest. -/
def inSeconds (d : Duration) : String :=
  let hundredths := (d.nanos + 5000000) / 10000000
  Nat.repr (hundredths / 100) ++ "." ++ Nat.repr (hundredths / 10 % 10) ++
    Nat.repr (hundredths % 10) ++ "s"

end Duration

end Enabledness
