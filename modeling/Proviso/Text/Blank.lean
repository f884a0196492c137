/-
  Blank characters.

  Two sets are in use. `isSpace` is the Unicode property White_Space. `isBlank` adds the
  four information separators U+001C to U+001F; it decides what separates tokens, what
  counts as indentation and what is trimmed from a line.
-/
import Proviso.Text.Basic

namespace Proviso.Text

/-- Whether a code point lies in one of the inclusive ranges. -/
def inRanges (ranges : List (Nat × Nat)) (n : Nat) : Bool :=
  ranges.any fun r => r.1 ≤ n && n ≤ r.2

/-- The ranges of the property White_Space. -/
def spaceRanges : List (Nat × Nat) :=
  [(0x09, 0x0D), (0x20, 0x20), (0x85, 0x85), (0xA0, 0xA0), (0x1680, 0x1680),
   (0x2000, 0x200A), (0x2028, 0x2029), (0x202F, 0x202F), (0x205F, 0x205F),
   (0x3000, 0x3000)]

/-- A character of White_Space. -/
def isSpace (c : Char) : Bool := inRanges spaceRanges c.toNat

/-- A character of White_Space or an information separator. -/
def isBlank (c : Char) : Bool := isSpace c || inRanges [(0x1C, 0x1F)] c.toNat

/-- The text without the characters of the class at its start. -/
def dropStart (p : Char → Bool) (t : Text) : Text := t.dropWhile p

/-- The text without the characters of the class at its end. -/
def dropEnd (p : Char → Bool) (t : Text) : Text := (t.reverse.dropWhile p).reverse

/-- The text without the characters of the class at either end. -/
def trim (p : Char → Bool) (t : Text) : Text := dropEnd p (dropStart p t)

end Proviso.Text
