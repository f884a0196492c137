/-
  Reports about lines.

  A complaint is what can be wrong with a line; a report is a complaint about one line
  together with the lines it stands below. A report has a trace, the text that is logged,
  and, if the line belongs to a source, a diagnostic, the record that is kept of it.
-/
import Proviso.Outline.Node
import Proviso.Numeral.Literal
import Proviso.Text.Blank
import Proviso.Text.Quoted

namespace Proviso.Outline

/-- What can be wrong with a line. -/
inductive Complaint where
  /-- The line has no token at an index. -/
  | noToken (index : Int)
  /-- A token was to be a number. -/
  | notNumber (token : Text)
  /-- The line says nothing that a rule can hold. -/
  | unrecognized
  /-- A remark of the caller's own, possibly an empty one. -/
  | remark (message : Text)
  deriving DecidableEq, Repr

/-- The wording of a complaint. -/
def Complaint.message : Complaint → Text
  | .noToken index =>
    "Requested token index (".toList ++ Text.ofInt index ++ ") is out of range.".toList
  | .notNumber token => "Cannot convert value to a number: ".toList ++ token.quoted
  | .unrecognized => "Unrecognized condition expression:".toList
  | .remark message => message

/-- A complaint about a line, with the lines that lead from the top to it. -/
structure Report where
  complaint : Complaint
  line : Line
  trail : List Line
  deriving DecidableEq, Repr

/-- The record of a report in an outline. -/
structure Diagnostic where
  message : Text
  line : Int
  text : Text
  source : Text
  deriving DecidableEq, Repr

/-- A diagnostic on one line: where it is, what it says, and the line it is about. -/
def Diagnostic.summary (d : Diagnostic) : Text :=
  let place := if d.source.isEmpty then [] else d.source ++ [':']
  Text.dropEnd Text.isBlank <|
    place ++ ['L'] ++ Text.ofInt d.line ++ ": ".toList ++ d.message ++ [' '] ++ d.text

namespace Report

/-- The report of a complaint about the line at a position. -/
def about (p : Position) (c : Complaint) : Report := ⟨c, p.node.line, p.trail⟩

/-- One line of a trace, indented by its depth. -/
def traceLine (depth : Nat) (l : Line) : Text :=
  ['L'] ++ Text.ofInt l.number ++ ": ".toList ++ List.replicate (2 * depth) ' ' ++ l.text

/-- The message, unless it is empty, and the lines of the trail. -/
def traceLines (r : Report) : List Text :=
  (if r.complaint.message.isEmpty then [] else [r.complaint.message])
    ++ r.trail.mapIdx traceLine

/-- The trace of a report. -/
def trace (r : Report) : Text := Text.join ['\n'] r.traceLines

/-- The trace with the name of the source, if it has a name, in front. -/
def logText (source : Text) (r : Report) : Text :=
  (if source.isEmpty then [] else source ++ ": ".toList) ++ r.trace

/-- The diagnostic of a report about a line from `source`. -/
def diagnostic (source : Text) (r : Report) : Diagnostic :=
  ⟨r.complaint.message, r.line.number, r.line.text, source⟩

end Report

/-- The number that the token at an index spells, and what there is to complain about. Without
a token the number is zero; a token that is no literal gives what is not a number. -/
def Line.value (l : Line) (i : Int) : Except Numeral.Fault (Number × List Complaint) :=
  match l.token? i with
  | none => .ok (.float (.zero false), [.noToken i])
  | some t =>
    match Numeral.Literal.read? t with
    | none => .ok (.float .nan, [.notNumber t])
    | some literal => literal.value.map (·, [])

end Proviso.Outline
