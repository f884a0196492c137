/-
  The lenient validation of raw values.

  The validation that the program works with is that of a library. It takes integers, texts and
  truth values for what they are, and beyond that many texts and numbers for integers and truth
  values. These rules are here so that the program can run; what is proved of loading settings
  is proved for every validation.
-/
import Proviso.Numeral.Argument
import Proviso.Settings.Basic

namespace Proviso.Settings.Lenient

/-- A raw value; `none` is a value that says that there is none. -/
abbrev Raw := Option Toml.Value

/-- Why a raw value is rejected. -/
inductive Reason where
  /-- It is nothing that could be an integer. -/
  | notInteger
  /-- It is a text that spells no integer. -/
  | unreadableInteger
  /-- It is an integer that is too long or too large to be taken over. -/
  | oversizedInteger
  /-- It is a number between integers. -/
  | fractional
  /-- It is infinite or not a number. -/
  | notFinite
  /-- It is not a text. -/
  | notText
  /-- It is nothing that could be a truth value. -/
  | notTruth
  /-- It might be a truth value but is none. -/
  | unreadableTruth
  deriving DecidableEq, Repr

/-- The wording of a reason. -/
def Reason.message : Reason → Text
  | .notInteger => "Input should be a valid integer".toList
  | .unreadableInteger =>
    "Input should be a valid integer, unable to parse string as an integer".toList
  | .oversizedInteger =>
    "Unable to parse input string as an integer, exceeded maximum size".toList
  | .fractional =>
    "Input should be a valid integer, got a number with a fractional part".toList
  | .notFinite => "Input should be a finite number".toList
  | .notText => "Input should be a valid string".toList
  | .notTruth => "Input should be a valid boolean".toList
  | .unreadableTruth => "Input should be a valid boolean, unable to interpret input".toList

/-! ### Integers -/

/-- A sign and ASCII digits, without zeros in front of other digits. Too many digits are noticed
before anything that stands behind them; the sign counts as one of them. -/
def plainInteger (t : Text) : Except Reason Int :=
  let (negative, t) :=
    match t with
    | '-' :: t => (true, t)
    | t => (false, t)
  let ds := t.takeWhile Char.isDigit
  if ds.isEmpty || (ds.head? = some '0' && 1 < ds.length) then .error .unreadableInteger
  else if Numeral.maxDigits < ds.length + (if negative then 1 else 0) then
    .error .oversizedInteger
  else if ds.length < t.length then .error .unreadableInteger
  else .ok (signed negative (Text.numberOf (ds.map fun c => c.toNat - '0'.toNat)))

/-- A text without the zeros in front of a digit or a minus sign. Underscores among the zeros go
with them, and one zero stays in front of a point or at the end. -/
def dropZeros? : Text → Option Text
  | [] => none
  | c :: cs =>
    if c = '0' then zeros c cs
    else if c = '-' ∨ ('1' ≤ c ∧ c ≤ '9') then some (c :: cs)
    else none
where
  /-- The rest behind a zero or an underscore `last`. -/
  zeros (last : Char) : Text → Option Text
    | [] => some [last]
    | c :: cs =>
      if c = '0' ∨ c = '_' then zeros c cs
      else if c = '-' ∨ ('1' ≤ c ∧ c ≤ '9') then some (c :: cs)
      else if c = '.' then some (last :: c :: cs)
      else none

/-- A text without a point that zeros, at least one, and nothing else follow. -/
def dropDecimals (t : Text) : Text :=
  match Text.cut '.' t with
  | (whole, some (d :: ds)) => if (d :: ds).all (· == '0') then whole else t
  | _ => t

/-- A text without its underscores, if they stand singly inside it. -/
def dropUnderscores (t : Text) : Text :=
  if t.head? = some '_' ∨ t.getLast? = some '_' ∨ Text.holds ['_', '_'] t then t
  else t.filter (· ≠ '_')

/-- What is left of a lenient spelling when blanks around it, a plus sign, zeros in front, zeros
behind a point and single underscores are taken away. A minus sign in front stays. -/
def plainSpelling? (t : Text) : Option Text :=
  let spelled (t : Text) := (dropZeros? t).map fun t => dropUnderscores (dropDecimals t)
  match Text.trim Text.isSpace t with
  | '+' :: '-' :: _ => none
  | '+' :: t => spelled t
  | '-' :: t => (spelled t).map ('-' :: ·)
  | t => spelled t

/-- The integer that a text spells, plainly or in a lenient way. Only a text that is plain is
told apart as too long; no lenient spelling of such a number is read. -/
def integerOfText (t : Text) : Except Reason Int :=
  match plainInteger t with
  | .ok i => .ok i
  | .error .oversizedInteger => .error .oversizedInteger
  | .error _ =>
    match (plainSpelling? t).map plainInteger with
    | some (.ok i) => .ok i
    | _ => .error .unreadableInteger

/-- Two to the power of 63. -/
def wordBound : Int := 0x8000000000000000

/-- The integer that a real number is, strictly between `-wordBound` and `wordBound`. -/
def integerOfReal (x : Binary64) : Except Reason Int :=
  match x.trunc? with
  | none => .error .notFinite
  | some i =>
    if !x.isIntegral then .error .fractional
    else if -wordBound < i ∧ i < wordBound then .ok i
    else .error .oversizedInteger

/-- The integer that a raw value is taken for. -/
def integerOf : Raw → Except Reason (Option Int)
  | none => .ok none
  | some (.integer i) => .ok (some i)
  | some (.boolean b) => .ok (some (if b then 1 else 0))
  | some (.real x) => (integerOfReal x).map some
  | some (.text t) => (integerOfText t).map some
  | some _ => .error .notInteger

/-! ### Truth values -/

/-- The words for false. -/
def falseWords : List Text :=
  ["0".toList, "off".toList, "f".toList, "false".toList, "n".toList, "no".toList]

/-- The words for true. -/
def trueWords : List Text :=
  ["1".toList, "on".toList, "t".toList, "true".toList, "y".toList, "yes".toList]

/-- The truth value that an integer is. -/
def truthOfInteger (i : Int) : Except Reason Bool :=
  if i = 0 then .ok false else if i = 1 then .ok true else .error .unreadableTruth

/-- The truth value that a raw value is taken for. A number that no signed word of 64 bits can hold
could not be a truth value at all. -/
def truthOf : Raw → Except Reason Bool
  | some (.boolean b) => .ok b
  | some (.integer i) =>
    if -wordBound ≤ i ∧ i < wordBound then truthOfInteger i else .error .notTruth
  | some (.real x) =>
    match integerOfReal x with
    | .ok i => truthOfInteger i
    | .error _ => .error .notTruth
  | some (.text t) =>
    let word := t.map Char.toLower
    if word ∈ falseWords then .ok false
    else if word ∈ trueWords then .ok true
    else .error .unreadableTruth
  | _ => .error .notTruth

/-! ### The validation -/

/-- The text that a raw value is taken for. -/
def textOf : Raw → Except Reason Text
  | some (.text t) => .ok t
  | _ => .error .notText

end Lenient

/-- The lenient validation. -/
def Validation.lenient : Validation where
  Raw := Lenient.Raw
  ofValue := some
  integer raw := (Lenient.integerOf raw).mapError Lenient.Reason.message
  text raw := (Lenient.textOf raw).mapError Lenient.Reason.message
  truth raw := (Lenient.truthOf raw).mapError Lenient.Reason.message

end Proviso.Settings
