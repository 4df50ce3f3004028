/-!
# The size of a number in a JSON text

A number that is read becomes a double, in three roundings: its leading digits, as far as they fit into
64 bits, make a significand; the significand and a power of ten are each rounded to 53 bits; and so is
their product.  A number is too large when that product is.  Because of the roundings on the way this
is not quite a bound on the number that the digits denote.
-/

namespace Enabledness.Json

/-! ## Rounding -/

/-- A quotient, rounded to the nearest whole number; a half goes to the even neighbour. -/
def roundDiv (n d : Nat) : Nat :=
  if d < 2 * (n % d) ∨ (2 * (n % d) = d ∧ n / d % 2 = 1) then n / d + 1 else n / d

/-- The weight of the last bit of a number that is cut to 53 bits. -/
def lastPlace (n : Nat) : Nat := Nat.pow 2 (n.log2 + 1 - 53)

/-- The nearest number that has 53 significant bits. -/
def roundDouble (n : Nat) : Nat := lastPlace n * roundDiv n (lastPlace n)

/-! ## Significands -/

/-- The value of a decimal digit. -/
def digitValue (c : Char) : Nat := c.toNat - '0'.toNat

/-- The value of decimal digits. -/
def digitsValue (digits : List Char) : Nat := digits.foldl (fun n c => n * 10 + digitValue c) 0

/-- What a significand stays below. -/
def significandLimit : Nat := UInt64.size

/-- Append digits to a significand up to the first one that does not fit.  The second component is the
number of digits that are left. -/
def appendDigits (n : Nat) : List Char → Nat × Nat
  | [] => (n, 0)
  | c :: rest =>
    if n * 10 + digitValue c < significandLimit then appendDigits (n * 10 + digitValue c) rest
    else (n, rest.length + 1)

/-! ## The range of doubles -/

/-- The largest exponent of ten whose power is a double. -/
def maxDecimalExponent : Nat := 308

/-- A double for a significand times a power of ten, as if doubles had no bound. -/
def scaledDouble (significand exponent : Nat) : Nat :=
  roundDouble (roundDouble significand * roundDouble (Nat.pow 10 exponent))

/-- A significand times a power of ten is too large for a double: it takes more than 1024 bits.  A
significand of zero never is, and neither is one that is divided. -/
def isTooLarge (significand : Nat) (exponent : Int) : Bool :=
  significand ≠ 0 ∧ 0 ≤ exponent ∧
    (maxDecimalExponent < exponent ∨ 1024 ≤ (scaledDouble significand exponent.toNat).log2)

end Enabledness.Json
