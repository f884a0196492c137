/-
  Outlines: lines of tokens, nested.

  A node is a line with the nodes below it. An outline is the list of its top nodes and the
  name of the source they came from; the line above all of them is the empty line 0. A
  position remembers the lines on the way from the top to a node.
-/
import Proviso.Text.Basic

namespace Proviso

namespace Outline

/-- One line: its number, its text without surrounding blanks, and its tokens. -/
structure Line where
  number : Int
  text : Text
  tokens : List Text
  deriving DecidableEq, Repr

namespace Line

/-- The line above the top nodes of an outline. -/
def outermost : Line := ⟨0, [], []⟩

/-- The token at an index, if there is one. -/
def token? (l : Line) (i : Int) : Option Text :=
  if 0 ≤ i then l.tokens[i.toNat]? else none

/-- The token at an index, empty if there is none. -/
def token (l : Line) (i : Int) : Text := (l.token? i).getD []

end Line

/-- A line and the nodes below it. -/
inductive Node where
  | mk (line : Line) (children : List Node)
  deriving Repr

namespace Node

/-- The line of the node itself. -/
def line : Node → Line
  | ⟨l, _⟩ => l

/-- The nodes directly below. -/
def children : Node → List Node
  | ⟨_, ns⟩ => ns

mutual

/-- Whether two nodes agree in their lines and in all that is below them. -/
def beq : Node → Node → Bool
  | ⟨l, ns⟩, ⟨k, ms⟩ => l == k && beqAll ns ms

/-- Whether two lists of nodes agree. -/
def beqAll : List Node → List Node → Bool
  | [], [] => true
  | n :: ns, m :: ms => beq n m && beqAll ns ms
  | _, _ => false

end

instance : BEq Node := ⟨beq⟩

end Node

/-- A node together with the lines above it, the outermost first. -/
structure Position where
  above : List Line
  node : Node

namespace Position

/-- The position of a node that nothing is above. -/
def top (n : Node) : Position := ⟨[], n⟩

/-- The position of the child with an index. -/
def child? (p : Position) (i : Nat) : Option Position :=
  p.node.children[i]?.map fun n => ⟨p.above ++ [p.node.line], n⟩

/-- The position reached by taking children one below the other. -/
def descend? (p : Position) : List Nat → Option Position
  | [] => some p
  | i :: is => (p.child? i).bind (descend? · is)

/-- The line directly above. -/
def parent? (p : Position) : Option Line := p.above.getLast?

/-- The lines from the top down to the node, without the one above the top nodes. -/
def trail (p : Position) : List Line := (p.above ++ [p.node.line]).drop 1

end Position

end Outline

/-- The nodes of a text and the name of where the text came from. -/
structure Outline where
  source : Text
  nodes : List Outline.Node

namespace Outline

/-- The node whose children are the top nodes. -/
def root (o : Outline) : Node := ⟨.outermost, o.nodes⟩

/-- The first top node whose tokens, with single spaces between them, spell `key`. -/
def findIdx? (o : Outline) (key : Text) : Option Nat :=
  o.nodes.findIdx? fun n => Text.join [' '] n.line.tokens == key

/-- The position of a top node. -/
def position? (o : Outline) (i : Nat) : Option Position := (Position.top o.root).child? i

end Outline

end Proviso
