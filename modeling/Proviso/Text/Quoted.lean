/-
  Text as it is quoted in a message.

  The text stands between single quotes, or between double quotes if it holds a single
  quote and no double one. Backslashes, the quote in use and characters that cannot be
  shown are escaped, so the quoted form never contains a line break.
-/
import Proviso.Text.Printable

namespace Proviso.Text

/-- The quote that is put around a text. -/
def quoteFor (t : Text) : Char :=
  if '\'' ∈ t ∧ '"' ∉ t then '"' else '\''

/-- One character inside the quotes `quote`. -/
def escape (quote c : Char) : Text :=
  if c = quote ∨ c = '\\' then ['\\', c]
  else if c = '\n' then ['\\', 'n']
  else if c = '\r' then ['\\', 'r']
  else if c = '\t' then ['\\', 't']
  else if isPrintable c then [c]
  else if c.toNat < 0x100 then ['\\', 'x'] ++ ofHex 2 c.toNat
  else if c.toNat < 0x10000 then ['\\', 'u'] ++ ofHex 4 c.toNat
  else ['\\', 'U'] ++ ofHex 8 c.toNat

/-- The text between quotes, as messages show it. -/
def quoted (t : Text) : Text :=
  quoteFor t :: t.flatMap (escape (quoteFor t)) ++ [quoteFor t]

end Proviso.Text
