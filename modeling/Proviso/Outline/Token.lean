/-
  Tokens of a line.

  Tokens are separated by blanks. A token may stand between two equal quotes, `"` or
  U+0060, and may then hold anything but that quote; the quotes are not part of it, and a
  quote that is never closed runs to the end of the line. A `#` where a token would begin
  starts a comment. `read` takes a line apart, `write?` is the written form of one token.
-/
import Proviso.Text.Blank

namespace Proviso.Outline.Token

/-- The two characters that can enclose a token. -/
def isQuote (c : Char) : Bool := c == '"' || c == '\x60'

/-- Where a reader stands in a line: between tokens, or inside a token of which it has seen
the beginning (kept in reverse). -/
inductive Place where
  | between
  | bare (begun : Text)
  | enclosed (quote : Char) (begun : Text)

/-- The tokens of the rest of a line, from a place in it. -/
def readFrom : Place → Text → List Text
  | .between, [] => []
  | .between, c :: cs =>
    if Text.isBlank c then readFrom .between cs
    else if c = '#' then []
    else if isQuote c then readFrom (.enclosed c []) cs
    else readFrom (.bare [c]) cs
  | .bare begun, [] => [begun.reverse]
  | .bare begun, c :: cs =>
    if Text.isBlank c then begun.reverse :: readFrom .between cs
    else readFrom (.bare (c :: begun)) cs
  | .enclosed _ begun, [] => [begun.reverse]
  | .enclosed quote begun, c :: cs =>
    if c = quote then begun.reverse :: readFrom .between cs
    else readFrom (.enclosed quote (c :: begun)) cs

/-- The tokens of a line. -/
def read (line : Text) : List Text := readFrom .between line

/-- Whether a token, written as it is, would be read as something else. -/
def needsQuotes : Text → Bool
  | [] => true
  | c :: cs => (c :: cs).any Text.isBlank || c == '#' || isQuote c

/-- The written form of a token. A token that needs quotes and holds both of them has none. -/
def write? (t : Text) : Option Text :=
  if !needsQuotes t then some t
  else if '"' ∉ t then some ('"' :: t ++ ['"'])
  else if '\x60' ∉ t then some ('\x60' :: t ++ ['\x60'])
  else none

end Proviso.Outline.Token
