/-
  Writing outlines.

  A draft is the lines written so far and the depth of the next one. Lines are indented by
  one tab for each level of depth. Writing a line fails, and leaves the draft as it was, if
  a token has no written form or a number is too long.
-/
import Proviso.Outline.Token
import Proviso.Numeral.Basic
import Proviso.Text.Quoted

namespace Proviso.Outline

/-- A part of a line to be written. -/
inductive Word where
  | token (text : Text)
  | integer (value : Int)
  deriving DecidableEq, Repr

/-- Why something cannot be written. -/
inductive Draft.Fault where
  /-- A token that needs quotes holds both kinds of quotes. -/
  | unquotable (token : Text)
  /-- An integer has too many digits. -/
  | numeral (fault : Numeral.Fault)
  /-- A block is closed that was never opened. -/
  | notOpen
  /-- The draft is finished while blocks are open. -/
  | stillOpen (blocks : Nat)
  /-- The draft has no place to be saved to. -/
  | noPath
  deriving DecidableEq, Repr

/-- The wording of a fault. -/
def Draft.Fault.message : Draft.Fault → Text
  | .unquotable token => "Token cannot be quoted: ".toList ++ token.quoted
  | .numeral fault => fault.message
  | .notOpen => "end_child() called without a matching begin_child()".toList
  | .stillOpen blocks => Text.ofNat blocks ++ " child block(s) still open".toList
  | .noPath => "DataWriter has no output path".toList

/-- The written form of a word. -/
def Word.write : Word → Except Draft.Fault Text
  | .token t =>
    match Token.write? t with
    | some written => .ok written
    | none => .error (.unquotable t)
  | .integer i => (Numeral.write i).mapError .numeral

/-- What has been written so far. -/
structure Draft where
  lines : List Text
  depth : Nat
  deriving DecidableEq, Repr

namespace Draft

/-- Nothing written yet. -/
def empty : Draft := ⟨[], 0⟩

/-- Writes a line. A line without words is empty and is not indented. -/
def write (d : Draft) (words : List Word) : Except Fault Draft := do
  let written ← words.mapM Word.write
  let indent := if words.isEmpty then [] else List.replicate d.depth '\t'
  return { d with lines := d.lines ++ [indent ++ Text.join [' '] written] }

/-- Opens a block: the lines after it are one level deeper. -/
def openBlock (d : Draft) : Draft := { d with depth := d.depth + 1 }

/-- Closes the block opened last. -/
def closeBlock (d : Draft) : Except Fault Draft :=
  match d.depth with
  | 0 => .error .notOpen
  | n + 1 => .ok { d with depth := n }

/-- The text of the draft, every line ended by a line feed. -/
def text (d : Draft) : Text := Text.unlines d.lines

/-- The text of a draft in which no block is open. -/
def finish (d : Draft) : Except Fault Text :=
  if d.depth = 0 then .ok d.text else .error (.stillOpen d.depth)

end Draft

end Proviso.Outline
