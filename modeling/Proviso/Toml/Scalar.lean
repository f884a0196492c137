/-
  Keys, strings, numbers and dates of a TOML document.

  Every reader takes the rest of the document and gives back what it has read and the rest
  behind it.
-/
import Proviso.Numeral.Literal
import Proviso.Toml.Value

namespace Proviso.Toml

/-- Reads from the front of the rest of a document. -/
abbrev Reader := StateT Text (Except Fault)

/-- The document is not well formed here. -/
def Reader.fail {α : Type} : Reader α := throw .malformed

/-- Reads by a function that may find nothing to read. -/
def Reader.ofOption {α : Type} (read : Text → Option (α × Text)) : Reader α := fun t =>
  match read t with
  | some r => .ok r
  | none => .error .malformed

/-! ### Blanks and comments -/

/-- A blank within a line. -/
def isGap (c : Char) : Bool := c == ' ' || c == '\t'

/-- A blank or a line end. -/
def isGapOrBreak (c : Char) : Bool := isGap c || c == '\n'

/-- A control character other than the tab; none of them may stand in a comment or a string,
except for line ends in a string of several lines. -/
def isForbidden (c : Char) : Bool := (c.toNat < 0x20 && c != '\t') || c.toNat == 0x7F

/-- Skips blanks within a line. -/
def skipGap : Reader Unit := modify (·.dropWhile isGap)

/-- Skips a comment, if one begins here, up to the line end. -/
def skipComment : Reader Unit := do
  match ← get with
  | '#' :: rest =>
    if (rest.takeWhile (· != '\n')).any isForbidden then Reader.fail
    else set (rest.dropWhile (· != '\n'))
  | _ => return

/-! ### Strings -/

/-- The character with a number of hexadecimal digits. -/
def hexChar? (count : Nat) (t : Text) : Option (Char × Text) :=
  match (t.take count).mapM Text.hexValue? with
  | none => none
  | some ds =>
    let n := ds.foldl (fun n d => 16 * n + d) 0
    if ds.length = count ∧ n.isValidChar then some (Char.ofNat n, t.drop count) else none

/-- What the characters behind a backslash stand for. In a string of several lines the end of
a line and the blanks around it stand for nothing. -/
def escape? (severalLines : Bool) : Text → Option (Text × Text)
  | 'b' :: t => some (['\x08'], t)
  | 't' :: t => some (['\t'], t)
  | 'n' :: t => some (['\n'], t)
  | 'f' :: t => some (['\x0C'], t)
  | 'r' :: t => some (['\r'], t)
  | '"' :: t => some (['"'], t)
  | '\\' :: t => some (['\\'], t)
  | 'u' :: t => (hexChar? 4 t).map fun (c, t) => ([c], t)
  | 'U' :: t => (hexChar? 8 t).map fun (c, t) => ([c], t)
  | c :: t =>
    if severalLines && isGapOrBreak c then
      match (c :: t).dropWhile isGap with
      | [] => some ([], [])
      | d :: t => if d = '\n' then some ([], t.dropWhile isGapOrBreak) else none
    else none
  | [] => none

/-- The rest of a string in double quotes, and what stands behind it. -/
def basic? (severalLines : Bool) : Nat → Text → Option (Text × Text)
  | 0, _ => none
  | fuel + 1, t =>
    match t with
    | [] => none
    | '\\' :: t =>
      match escape? severalLines t with
      | none => none
      | some (s, t) => (basic? severalLines fuel t).map fun (rest, t) => (s ++ rest, t)
    | c :: t =>
      let closes := if severalLines then Text.after? ['"', '"'] t else some t
      match c == '"', closes with
      | true, some t => some ([], t)
      | _, _ =>
        if isForbidden c && !(severalLines && c == '\n') then none
        else (basic? severalLines fuel t).map fun (rest, t) => (c :: rest, t)

/-- The rest of a string in single quotes, and what stands behind it. -/
def literal? (severalLines : Bool) : Text → Option (Text × Text)
  | [] => none
  | c :: t =>
    let closes := if severalLines then Text.after? ['\'', '\''] t else some t
    match c == '\'', closes with
    | true, some t => some ([], t)
    | _, _ =>
      if isForbidden c && !(severalLines && c == '\n') then none
      else (literal? severalLines t).map fun (rest, t) => (c :: rest, t)

/-- A string of several lines may end in one or two quotes of its own before the closing ones. -/
def trailing (quote : Char) : Text × Text → Text × Text
  | (s, t) =>
    match Text.after? [quote, quote] t with
    | some t => (s ++ [quote, quote], t)
    | none =>
      match Text.after? [quote] t with
      | some t => (s ++ [quote], t)
      | none => (s, t)

/-- A line end directly behind the opening quotes of a string of several lines does not count. -/
def dropBreak : Text → Text
  | '\n' :: t => t
  | t => t

/-- A string of one line. -/
def line? : Text → Option (Text × Text)
  | '"' :: t => basic? false (t.length + 1) t
  | '\'' :: t => literal? false t
  | _ => none

/-- A string. -/
def string? (t : Text) : Option (Text × Text) :=
  match Text.after? ['"', '"', '"'] t, Text.after? ['\'', '\'', '\''] t with
  | some t, _ => (basic? true (t.length + 1) (dropBreak t)).map (trailing '"')
  | _, some t => (literal? true (dropBreak t)).map (trailing '\'')
  | none, none => line? t

/-! ### Keys -/

/-- A character of a key without quotes. -/
def isBare (c : Char) : Bool := c.isAlphanum || c == '-' || c == '_'

/-- One part of a key. -/
def keyPart? (t : Text) : Option (Text × Text) :=
  match t.takeWhile isBare with
  | [] => line? t
  | part => some (part, t.dropWhile isBare)

/-- The parts of a key, with points between them. -/
def keyParts? : Nat → Text → Option (List Text × Text)
  | 0, _ => none
  | fuel + 1, t =>
    match keyPart? (t.dropWhile isGap) with
    | none => none
    | some (part, t) =>
      match t.dropWhile isGap with
      | '.' :: t => (keyParts? fuel t).map fun (parts, t) => (part :: parts, t)
      | t => some ([part], t)

/-- A key, with the blanks behind it. -/
def readKey : Reader (List Text) := .ofOption fun t => keyParts? (t.length + 1) t

/-! ### Dates and times -/

/-- A number of exactly `count` ASCII digits, between bounds. -/
def fixed? (count least most : Nat) (t : Text) : Option (Nat × Text) :=
  let digits := t.take count
  let n := digits.foldl (fun n c => 10 * n + (c.toNat - '0'.toNat)) 0
  if digits.length = count ∧ digits.all Char.isDigit ∧ least ≤ n ∧ n ≤ most then
    some (n, t.drop count)
  else none

/-- A time of day, with any number of decimals. -/
def time? (t : Text) : Option Text := do
  let (_, t) ← fixed? 2 0 23 t
  let t ← Text.after? [':'] t
  let (_, t) ← fixed? 2 0 59 t
  let t ← Text.after? [':'] t
  let (_, t) ← fixed? 2 0 59 t
  match t with
  | '.' :: c :: rest => some (if c.isDigit then rest.dropWhile Char.isDigit else t)
  | _ => some t

/-- The distance from universal time, if there is one. -/
def dropOffset (t : Text) : Text :=
  match t with
  | [] => []
  | c :: rest =>
    if c = 'Z' ∨ c = 'z' then rest
    else if c = '+' ∨ c = '-' then
      ((do
        let (_, rest) ← fixed? 2 0 23 rest
        let rest ← Text.after? [':'] rest
        let (_, rest) ← fixed? 2 0 59 rest
        some rest) : Option Text).getD t
    else t

/-- The number of days of a month. -/
def daysIn (year month : Nat) : Nat :=
  if month = 2 then
    if year % 4 = 0 ∧ (year % 100 ≠ 0 ∨ year % 400 = 0) then 29 else 28
  else if month ∈ [4, 6, 9, 11] then 30
  else 31

/-- A date by its form: year, month and day. -/
def date? (t : Text) : Option ((Nat × Nat × Nat) × Text) := do
  let (year, t) ← fixed? 4 0 9999 t
  let t ← Text.after? ['-'] t
  let (month, t) ← fixed? 2 1 12 t
  let t ← Text.after? ['-'] t
  let (day, t) ← fixed? 2 1 31 t
  some ((year, month, day), t)

/-- What stands behind a date: perhaps a time and its distance from universal time. -/
def dropTime (t : Text) : Text :=
  match t with
  | [] => []
  | c :: rest =>
    if c = 'T' ∨ c = 't' ∨ c = ' ' then
      match time? rest with
      | some rest => dropOffset rest
      | none => t
    else t

/-! ### Numbers -/

/-- Characters of a class at the front of the text, single underscores between two of them left
out. -/
def run (p : Char → Bool) : Text → Text × Text
  | [] => ([], [])
  | '_' :: c :: t =>
    if p c then
      let (cs, t) := run p t
      (c :: cs, t)
    else ([], '_' :: c :: t)
  | c :: t =>
    if p c then
      let (cs, t) := run p t
      (c :: cs, t)
    else ([], c :: t)

/-- A run that begins with a character of the class. -/
def digits? (p : Char → Bool) : Text → Option (Text × Text)
  | [] => none
  | c :: t => if p c then some (run p (c :: t)) else none

/-- A point or an exponent mark with digits behind it, as it stands; nothing if there is none. -/
def part (marks : List Char) (signs : Bool) (t : Text) : Text × Text :=
  match t with
  | [] => ([], [])
  | mark :: rest =>
    if mark ∈ marks then
      let (sign, rest) :=
        match signs, rest with
        | true, '+' :: rest => (['+'], rest)
        | true, '-' :: rest => (['-'], rest)
        | _, rest => ([], rest)
      match digits? Char.isDigit rest with
      | some (ds, rest) => (mark :: sign ++ ds, rest)
      | none => ([], t)
    else ([], t)

/-- The number of digits of a base. -/
def ofBase (base : Nat) (ds : Text) : Nat :=
  ds.foldl (fun n c => base * n + (Text.hexValue? c).getD 0) 0

/-- An integer with a mark for its base. -/
def marked? : Text → Option (Value × Text)
  | '0' :: mark :: t =>
    let base := if mark = 'x' then 16 else if mark = 'b' then 2 else if mark = 'o' then 8 else 0
    (digits? (fun c => ((Text.hexValue? c).getD base) < base) t).map fun (ds, t) =>
      (.integer (ofBase base ds), t)
  | _ => none

/-- A decimal number: an integer, or a real number if it has a point or an exponent. -/
def decimal? (t : Text) : Option (Except Fault Value × Text) :=
  let (sign, t) :=
    match t with
    | '+' :: t => (['+'], t)
    | '-' :: t => (['-'], t)
    | t => ([], t)
  let whole :=
    match t with
    | '0' :: t => some (['0'], t)
    | t => digits? Char.isDigit t
  whole.map fun (whole, t) =>
    let (fraction, t) := part ['.'] false t
    let (exponent, t) := part ['e', 'E'] true t
    let number :=
      match Numeral.Literal.read? (sign ++ whole ++ fraction ++ exponent) with
      | none => .error .malformed
      | some l =>
        match l.value with
        | .ok (.int i) => .ok (.integer i)
        | .ok (.float x) => .ok (.real x)
        | .error fault => .error (.numeral fault)
    (number, t)

/-- A number that has no digits. -/
def special? (t : Text) : Option (Value × Text) :=
  let (negative, t) := Numeral.spanSign t
  match Text.after? ['i', 'n', 'f'] t, Text.after? ['n', 'a', 'n'] t with
  | some t, _ => some (.real (.infinite negative), t)
  | _, some t => some (.real .nan, t)
  | none, none => none

/-- A date, a time or a number. The form of a date goes before that of a number, and a date of
the right form that is not in the calendar is not taken for anything else. -/
def readScalar : Reader Value := do
  let t ← get
  match date? t with
  | some ((year, month, day), rest) =>
    if year = 0 ∨ daysIn year month < day then Reader.fail
    else
      set (dropTime rest)
      return .moment
  | none =>
  match time? t with
  | some rest =>
    set rest
    return .moment
  | none =>
  match marked? t with
  | some (v, rest) =>
    set rest
    return v
  | none =>
  match decimal? t with
  | some (v, rest) =>
    set rest
    v
  | none => Reader.ofOption special?

end Proviso.Toml
