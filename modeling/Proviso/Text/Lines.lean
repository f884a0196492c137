/-
  Lines of a text.

  A line ends at any of eleven line breaks, a carriage return with a line feed counting
  as one of them; the break belongs to no line, and a break at the end of the text opens
  no further line. `unifyBreaks` is the coarser treatment that a stored file gets first:
  carriage returns, with or without a line feed, become line feeds and all else stays.
-/
import Proviso.Text.Basic

namespace Proviso.Text

/-- The single characters that end a line. -/
def isLineBreak (c : Char) : Bool :=
  c ∈ ['\n', '\x0B', '\x0C', '\r', '\x1C', '\x1D', '\x1E', '\u0085', '\u2028', '\u2029']

/-- The lines of the text, given the reversed beginning of the current line. -/
def linesFrom (begun : Text) : Text → List Text
  | [] => if begun.isEmpty then [] else [begun.reverse]
  | '\r' :: '\n' :: cs => begun.reverse :: linesFrom [] cs
  | c :: cs =>
    if isLineBreak c then begun.reverse :: linesFrom [] cs
    else linesFrom (c :: begun) cs

/-- The lines of the text, without their breaks. -/
def lines (t : Text) : List Text := linesFrom [] t

/-- Every carriage return, alone or before a line feed, turned into a line feed. -/
def unifyBreaks : Text → Text
  | [] => []
  | '\r' :: '\n' :: cs => '\n' :: unifyBreaks cs
  | c :: cs => (if c = '\r' then '\n' else c) :: unifyBreaks cs

/-- Every carriage return before a line feed removed. -/
def joinReturns : Text → Text
  | [] => []
  | '\r' :: '\n' :: cs => '\n' :: joinReturns cs
  | c :: cs => c :: joinReturns cs

end Proviso.Text
