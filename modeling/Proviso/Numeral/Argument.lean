/-
  Integers as they are given to a program from outside.

  An integer argument is a decimal integer with an optional sign, in digits of any script;
  single underscores may stand between digits, and white space around it does not count.
-/
import Proviso.Numeral.Literal
import Proviso.Text.Blank

namespace Proviso.Numeral

/-- Digits with single underscores between some of them, by value. -/
def groupedDigits? : Text → Option (List Nat)
  | [] => none
  | c :: cs =>
    match Text.digit? c with
    | none => none
    | some d =>
      match cs with
      | [] => some [d]
      | '_' :: cs => (groupedDigits? cs).map (d :: ·)
      | cs => (groupedDigits? cs).map (d :: ·)

/-- The integer that an argument spells, within the bound on digits. -/
def argument? (t : Text) : Option Int :=
  let (negative, t) := spanSign (Text.trim Text.isSpace t)
  match groupedDigits? t with
  | none => none
  | some ds => if ds.length ≤ maxDigits then some (signed negative (Text.numberOf ds)) else none

end Proviso.Numeral
