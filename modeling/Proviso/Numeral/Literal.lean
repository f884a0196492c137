/-
  Numeric literals as they stand in an outline.

  A literal is an optional sign, digits with an optional point among or next to them, and an
  optional exponent; digits of every script count. Without point and exponent it denotes an
  integer exactly, otherwise the nearest binary floating-point number. Words such as `inf`
  are no literals.
-/
import Proviso.Numeral.Basic
import Proviso.Text.Digit

namespace Proviso.Numeral

/-- A literal by its parts, digits by their values. -/
structure Literal where
  negative : Bool
  /-- The digits before the point. -/
  whole : List Nat
  /-- The digits after the point, if there is a point. -/
  fraction : Option (List Nat)
  /-- The sign and the digits of the exponent, if there is one. -/
  exponent : Option (Bool × List Nat)
  deriving DecidableEq, Repr

/-- An optional sign in front of a text: whether it is a minus sign, and what follows. -/
def spanSign : Text → Bool × Text
  | '-' :: cs => (true, cs)
  | '+' :: cs => (false, cs)
  | cs => (false, cs)

/-- An optional point and the digits after it. -/
def spanFraction : Text → Option (List Nat) × Text
  | '.' :: cs =>
    let (ds, rest) := Text.spanDigits cs
    (some ds, rest)
  | cs => (none, cs)

/-- An exponent that fills the whole text; no exponent if the text is empty. -/
def exponent? : Text → Option (Option (Bool × List Nat))
  | [] => some none
  | c :: cs =>
    if c = 'e' ∨ c = 'E' then
      let (negative, cs) := spanSign cs
      match Text.spanDigits cs with
      | (d :: ds, []) => some (some (negative, d :: ds))
      | _ => none
    else none

namespace Literal

/-- Reads a literal that is the whole text. -/
def read? (t : Text) : Option Literal :=
  let (negative, t) := spanSign t
  let (whole, t) := Text.spanDigits t
  let (fraction, t) := spanFraction t
  if whole.isEmpty && (fraction.getD []).isEmpty then none
  else (exponent? t).map fun exponent => ⟨negative, whole, fraction, exponent⟩

/-- A literal that is a sign and digits only. -/
def isInteger (l : Literal) : Bool := l.fraction.isNone && l.exponent.isNone

/-- All digits of the literal but those of the exponent, read as one number. -/
def digits (l : Literal) : Nat := Text.numberOf (l.whole ++ l.fraction.getD [])

/-- The power of ten by which `digits` is to be multiplied. -/
def scale (l : Literal) : Int :=
  (match l.exponent with
    | none => 0
    | some (negative, ds) => signed negative (Text.numberOf ds))
  - (l.fraction.getD []).length

/-- The number a literal denotes. -/
def value (l : Literal) : Except Fault Number :=
  if l.isInteger then
    if l.whole.length ≤ maxDigits then .ok (.int (signed l.negative l.digits))
    else .error (.tooLongToRead l.whole.length)
  else .ok (.float (.ofDecimal l.negative l.digits l.scale))

end Literal

/-- Whether the text is a literal. -/
def isLiteral (t : Text) : Bool := (Literal.read? t).isSome

end Proviso.Numeral
