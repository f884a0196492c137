/-
  Numbers and the bound on their decimal text.

  A number is an integer of any size or a binary floating-point number. Integers of more
  than `maxDigits` decimal digits are neither read nor written; attempting it is a fault.
-/
import Proviso.Numeral.Binary64

namespace Proviso

/-- A number read from a numeral. -/
inductive Number where
  | int (value : Int)
  | float (value : Binary64)
  deriving DecidableEq, Repr

/-- The integer part of a number, unless it is infinite or not a number at all. -/
def Number.trunc? : Number → Option Int
  | .int i => some i
  | .float x => x.trunc?

namespace Numeral

/-- The number of decimal digits above which an integer has no text. -/
def maxDigits : Nat := 4300

/-- An integer beyond the bound on digits. -/
inductive Fault where
  /-- A numeral of so many digits was to be read. -/
  | tooLongToRead (digits : Nat)
  /-- An integer with too many digits was to be written. -/
  | tooLongToWrite
  deriving DecidableEq, Repr

/-- The wording of a fault. -/
def Fault.message (f : Fault) : Text :=
  let count :=
    match f with
    | .tooLongToRead digits => ": value has ".toList ++ Text.ofNat digits ++ " digits".toList
    | .tooLongToWrite => []
  "Exceeds the limit (".toList ++ Text.ofNat maxDigits
    ++ " digits) for integer string conversion".toList ++ count
    ++ "; use sys.set_int_max_str_digits() to increase the limit".toList

/-- Whether an integer is within the bound. -/
def fits (i : Int) : Bool := (Text.ofNat i.natAbs).length ≤ maxDigits

/-- The decimal text of an integer. -/
def write (i : Int) : Except Fault Text :=
  if fits i then .ok (Text.ofInt i) else .error .tooLongToWrite

end Numeral

end Proviso
