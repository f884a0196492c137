/-
  How indentation makes an outline.

  A line has content if it is neither blank nor a comment. The node of a content line
  stands below the nearest earlier content line that is indented less, or at the top if
  there is none. Reading goes from the first line to the last and keeps the lines that are
  still open: a line closes those that are indented no less, and is linked to the innermost
  that is left. The nodes are what the links put together.
-/
import Proviso.Outline.Node
import Proviso.Outline.Token
import Proviso.Text.Lines

namespace Proviso.Outline

/-- The character that may stand in front of a text as a mark of byte order. -/
def byteOrderMark : Char := '\uFEFF'

/-- The text without one byte order mark in front. -/
def dropMark : Text → Text
  | [] => []
  | c :: cs => if c = byteOrderMark then cs else c :: cs

/-- The indentation of a line that has content, and the line. -/
def content? (number : Nat) (raw : Text) : Option (Nat × Line) :=
  let stripped := Text.dropStart Text.isBlank raw
  match stripped with
  | [] => none
  | c :: _ =>
    if c = '#' then none
    else
      some (raw.length - stripped.length,
        ⟨number, Text.dropEnd Text.isBlank stripped, Token.read stripped⟩)

/-- The content lines among lines that are numbered from `number` on. -/
def contentFrom (number : Nat) : List Text → List (Nat × Line)
  | [] => []
  | raw :: rest =>
    match content? number raw with
    | none => contentFrom (number + 1) rest
    | some entry => entry :: contentFrom (number + 1) rest

/-- The content lines of a text with their indentations. -/
def content (t : Text) : List (Nat × Line) := contentFrom 1 (dropMark t).lines

/-! ### Links to the lines above -/

/-- A line and the index of the one it stands below; the line above the top nodes stands below
none. -/
structure Linked where
  line : Line
  parent : Option Nat
  deriving DecidableEq, Repr

/-- The lines read so far, and the indentations and indices of those that are still open, the
innermost in front. -/
structure Linking where
  links : List Linked
  opened : List (Nat × Nat)

namespace Linking

/-- Only the line above the top nodes, which is always open, has been read. -/
def start : Linking := ⟨[⟨.outermost, none⟩], []⟩

/-- Closes what is indented no less than a line and links the line to what is then open. -/
def take (s : Linking) (entry : Nat × Line) : Linking :=
  let opened := s.opened.dropWhile fun o => entry.1 ≤ o.1
  ⟨s.links ++ [⟨entry.2, some ((opened.head?.map (·.2)).getD 0)⟩],
    (entry.1, s.links.length) :: opened⟩

end Linking

/-- The lines of a text with their links. -/
def links (t : Text) : List Linked := ((content t).foldl Linking.take .start).links

/-! ### Trees -/

/-- The trees of linked lines whose indices begin with `i`, and what their top lines are linked to.
A line has as its children the trees behind it that are linked to it, in their order. -/
def assemble (i : Nat) : List Linked → List (Option Nat × Node)
  | [] => []
  | l :: ls =>
    let trees := assemble (i + 1) ls
    let below := trees.filter fun tree => tree.1 = some i
    let beside := trees.filter fun tree => tree.1 ≠ some i
    (l.parent, ⟨l.line, below.map (·.2)⟩) :: beside

/-- The top nodes of a text: the children of the line that is linked to none. -/
def nodesOf (t : Text) : List Node := (assemble 0 (links t)).flatMap fun tree => tree.2.children

/-- The outline of a text. -/
def parse (source t : Text) : Outline := ⟨source, nodesOf t⟩

end Proviso.Outline
