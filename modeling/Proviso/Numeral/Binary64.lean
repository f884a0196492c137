/-
  Binary floating-point numbers of 64 bits, by their exact values.

  A finite number is a sign, a significand and a power of two. Of the many ways to write a
  number in this form the functions below produce one: the significand is below 2^53, and it
  is at least 2^52 or the exponent is the smallest one. `ofDecimal` rounds a decimal number
  to the nearest representable one, of two equally near to the one with the even
  significand; all of it is exact integer arithmetic.
-/
import Proviso.Text.Basic

namespace Proviso

/-- A number of the format, `± significand · 2 ^ exponent` if it is finite. -/
inductive Binary64 where
  | finite (negative : Bool) (significand : Nat) (exponent : Int)
  | infinite (negative : Bool)
  | nan
  deriving DecidableEq, Repr

/-- An integer by sign and magnitude. -/
def signed (negative : Bool) (magnitude : Nat) : Int :=
  if negative then -(magnitude : Int) else magnitude

namespace Binary64

/-- The first significand of full precision, `2 ^ 52`. -/
def leastFull : Nat := 1 <<< 52

/-- The bound of all significands, `2 ^ 53`. -/
def significandBound : Nat := 1 <<< 53

/-- The bit of the sign, `2 ^ 63`. -/
def signBit : Nat := 1 <<< 63

/-- The exponent of the smallest numbers. -/
def minExponent : Int := -1074

/-- The exponent of the largest numbers. -/
def maxExponent : Int := 971

/-- The zero of a sign. -/
def zero (negative : Bool) : Binary64 := .finite negative 0 minExponent

/-- The natural number nearest to `num / den`, of two equally near the even one. -/
def roundHalfEven (num den : Nat) : Nat :=
  let q := num / den
  let r := num % den
  if 2 * r < den then q
  else if den < 2 * r then q + 1
  else q + q % 2

/-- The quotient `num / den` divided by `2 ^ exponent` and rounded. -/
def scaled (num den : Nat) (exponent : Int) : Nat :=
  if 0 ≤ exponent then roundHalfEven num (den <<< exponent.toNat)
  else roundHalfEven (num <<< (-exponent).toNat) den

/-- The exponent at which `num / den` has a significand of full precision, if the format has
that exponent, and the smallest exponent otherwise. -/
def exponentFor (num den : Nat) : Int :=
  let l : Int := (Nat.log2 num : Int) - (Nat.log2 den : Int)
  let reaches :=
    if 0 ≤ l then den <<< l.toNat ≤ num else den ≤ num <<< (-l).toNat
  max minExponent (if reaches then l - 52 else l - 53)

/-- The number nearest to `num / den` for positive `num` and `den`. -/
def nearest (negative : Bool) (num den : Nat) : Binary64 :=
  let e := exponentFor num den
  let q := scaled num den e
  let (q, e) := if q = significandBound then (leastFull, e + 1) else (q, e)
  if maxExponent < e then .infinite negative else .finite negative q e

/-- The number nearest to `± digits · 10 ^ scale`. Far outside the range of the format the
power of ten is not computed: the result is zero or infinite whatever the digits are. -/
def ofDecimal (negative : Bool) (digits : Nat) (scale : Int) : Binary64 :=
  let magnitude : Int := (Nat.toDigits 10 digits).length + scale
  if digits = 0 ∨ magnitude ≤ -330 then zero negative
  else if 310 ≤ magnitude then .infinite negative
  else if 0 ≤ scale then nearest negative (digits * Nat.pow 10 scale.toNat) 1
  else nearest negative digits (Nat.pow 10 (-scale).toNat)

/-- The integer part, for a finite number. -/
def trunc? : Binary64 → Option Int
  | .finite negative m e =>
    some (signed negative (if 0 ≤ e then m <<< e.toNat else m >>> (-e).toNat))
  | .infinite _ => none
  | .nan => none

/-- Whether the number is an integer. -/
def isIntegral : Binary64 → Bool
  | .finite _ m e => 0 ≤ e || (m >>> (-e).toNat) <<< (-e).toNat == m
  | .infinite _ => false
  | .nan => false

/-- The number with the given bits, of which only the last 64 count. -/
def ofBits (bits : Nat) : Binary64 :=
  let negative := (bits >>> 63) % 2 == 1
  let field : Nat := (bits >>> 52) % 2048
  let fraction := bits % leastFull
  if field = 2047 then
    if fraction = 0 then .infinite negative else .nan
  else if field = 0 then .finite negative fraction minExponent
  else .finite negative (leastFull + fraction) ((field : Int) - 1075)

/-- The bits of a number; for the one `nan` those of a quiet one. -/
def toBits : Binary64 → Nat
  | .finite negative m e =>
    let sign := if negative then signBit else 0
    if m < leastFull then sign + m else sign + ((e + 1075).toNat <<< 52) + (m - leastFull)
  | .infinite negative => (if negative then signBit else 0) + (2047 <<< 52)
  | .nan => (2047 <<< 52) + (1 <<< 51)

end Binary64

end Proviso
