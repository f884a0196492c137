/-
  Settings.

  There are three settings, each with a default: a seed for random numbers, the level of the
  log, and whether warnings count as errors. A raw value is whatever a source of settings gives
  for one of them. Which raw values can be taken for integers, texts and truth values is left to
  a validation, and a setting takes from it what it needs; only the names of the levels are
  looked up here.
-/
import Proviso.Log
import Proviso.Toml.Value

namespace Proviso

/-- The settings of a run. -/
structure Settings where
  seed : Option Int
  level : Log.Level
  strict : Bool
  deriving DecidableEq, Repr

namespace Settings

/-- The settings that hold where nothing is said. -/
def default : Settings := ⟨none, .warning, false⟩

/-- The names of the settings. -/
inductive Field where
  | seed | level | strict
  deriving DecidableEq, Repr

/-- The key of a setting. -/
def Field.key : Field → Text
  | .seed => "random_seed".toList
  | .level => "log_level".toList
  | .strict => "strict".toList

/-- A way to look at raw values. It has raw values of its own, those of documents among them, and
takes each for a value of some type or rejects it with a message. -/
structure Validation where
  /-- The raw values. -/
  Raw : Type
  /-- The raw value that a value of a document is. -/
  ofValue : Toml.Value → Raw
  /-- The integer that a raw value is taken for, or none if it says that there is none. -/
  integer : Raw → Except Text (Option Int)
  /-- The text that a raw value is taken for. -/
  text : Raw → Except Text Text
  /-- The truth value that a raw value is taken for. -/
  truth : Raw → Except Text Bool

/-- The raw value that a text is. -/
def Validation.ofText (v : Validation) (t : Text) : v.Raw := v.ofValue (.text t)

/-- Why a raw value is rejected. -/
inductive Reason where
  /-- The validation rejects it. -/
  | refused (message : Text)
  /-- It is a text that names no level. -/
  | unknownLevel (value : Text)
  deriving DecidableEq, Repr

/-- The wording of a reason. -/
def Reason.message : Reason → Text
  | .refused message => message
  | .unknownLevel value =>
    "Value error, log_level must be one of ".toList
      ++ Text.join [',', ' '] (Log.Level.all.map Log.Level.name)
      ++ ", got ".toList ++ value.quoted

/-- The upper-case form of a character whose upper-case form is in ASCII; every other character
is left alone, and as its upper-case form is outside ASCII it can be part of no level's name. -/
def asciiUpper (c : Char) : Text :=
  if 'a' ≤ c ∧ c ≤ 'z' then [c.toUpper]
  else
    match c with
    | 'ı' => ['I']
    | 'ſ' => ['S']
    | 'ß' => ['S', 'S']
    | 'ﬀ' => ['F', 'F']
    | 'ﬁ' => ['F', 'I']
    | 'ﬂ' => ['F', 'L']
    | 'ﬃ' => ['F', 'F', 'I']
    | 'ﬄ' => ['F', 'F', 'L']
    | 'ﬅ' => ['S', 'T']
    | 'ﬆ' => ['S', 'T']
    | c => [c]

variable (v : Validation)

/-- The seed that a raw value gives. -/
def seedOf (raw : v.Raw) : Except Reason (Option Int) := (v.integer raw).mapError .refused

/-- The level that a raw value names, in lower or upper case. -/
def levelOf (raw : v.Raw) : Except Reason Log.Level :=
  match v.text raw with
  | .error message => .error (.refused message)
  | .ok t =>
    match Log.Level.ofName? (t.flatMap asciiUpper) with
    | some level => .ok level
    | none => .error (.unknownLevel t)

/-- The strictness that a raw value gives. -/
def strictOf (raw : v.Raw) : Except Reason Bool := (v.truth raw).mapError .refused

end Settings

end Proviso
