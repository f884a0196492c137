/-
  Walking through a tree of lines.

  `walk` lists the positions of a node and of all that is below it in the order in which their
  lines stand in a file: a line comes before the lines below it, and these come before the
  next line beside it. `map` changes the lines of a tree and keeps its shape.
-/
import Proviso.Outline.Node

namespace Proviso.Outline

namespace Node

mutual

/-- The node with every line in it changed by `f`. -/
def map (f : Line → Line) : Node → Node
  | ⟨l, ns⟩ => ⟨f l, mapAll f ns⟩

/-- The nodes with every line in them changed by `f`. -/
def mapAll (f : Line → Line) : List Node → List Node
  | [] => []
  | n :: ns => map f n :: mapAll f ns

end

mutual

/-- The positions of a node below the lines `above` and of all nodes below it. -/
def walk (above : List Line) : Node → List Position
  | ⟨l, ns⟩ => ⟨above, ⟨l, ns⟩⟩ :: walkAll (above ++ [l]) ns

/-- The positions of nodes below the lines `above` and of all nodes below them. -/
def walkAll (above : List Line) : List Node → List Position
  | [] => []
  | n :: ns => walk above n ++ walkAll above ns

end

theorem mapAll_eq_map (f : Line → Line) (ns : List Node) : mapAll f ns = ns.map (map f) := by
  induction ns with
  | nil => rfl
  | cons n ns ih => rw [mapAll, List.map_cons, ih]

theorem line_map (f : Line → Line) (n : Node) : (n.map f).line = f n.line := by
  cases n
  rfl

theorem walkAll_append (above : List Line) (ns ms : List Node) :
    walkAll above (ns ++ ms) = walkAll above ns ++ walkAll above ms := by
  induction ns with
  | nil => rfl
  | cons n ns ih => rw [List.cons_append, walkAll, walkAll, ih, List.append_assoc]

mutual

/-- The lines of a node and of all below it. -/
theorem walk_lines (above : List Line) : (n : Node) →
    (walk above n).map (·.node.line) = (walk [] n).map (·.node.line)
  | ⟨l, ns⟩ => by
    rw [walk, walk, List.map_cons, List.map_cons, walkAll_lines (above ++ [l]) ns,
      walkAll_lines ([] ++ [l]) ns]

/-- The lines do not depend on what is above them. -/
theorem walkAll_lines (above : List Line) : (ns : List Node) →
    (walkAll above ns).map (·.node.line) = (walkAll [] ns).map (·.node.line)
  | [] => rfl
  | n :: ns => by
    rw [walkAll, walkAll, List.map_append, List.map_append, walk_lines above n,
      walkAll_lines above ns]

end

end Node

/-- The positions of all nodes of an outline, in the order of their lines. -/
def walk (o : Outline) : List Position := Node.walkAll [.outermost] o.nodes

end Proviso.Outline
