/-
  What is found wrong with an outline.

  An outline that was read from a text keeps a diagnostic of every report about one of its lines, in
  the order in which the reports are made; lines that were put together by hand have no such owner.
  To print a report is to give its trace, to make a record of it for the log, and to add its
  diagnostic to those that the owner keeps. The trace and the owner of a line are found by climbing
  its links: the lines on the way are the trace, and the owner stands at the top.
-/
import Proviso.Log
import Proviso.Outline.Layout

namespace Proviso.Outline

/-- The name of where an outline came from, and the diagnostics kept so far. -/
structure Findings where
  source : Text
  diagnostics : List Diagnostic
  deriving DecidableEq, Repr

/-- What comes of printing a report. -/
structure Printed where
  trace : Text
  record : Log.Record
  owner : Option Findings
  deriving DecidableEq, Repr

namespace Findings

/-- The findings with the diagnostic of one more report. -/
def add (f : Findings) (r : Report) : Findings :=
  { f with diagnostics := f.diagnostics ++ [r.diagnostic f.source] }

/-- The name of the source of a line, empty if the line has no owner. -/
def sourceOf : Option Findings → Text
  | none => []
  | some f => f.source

end Findings

/-- What comes of a report about a line of an owner, if it has one. -/
def Report.print (r : Report) (owner : Option Findings) : Printed :=
  ⟨r.trace, r.record (Findings.sourceOf owner), owner.map (·.add r)⟩

/-! ### Climbing -/

/-- The indices that are met from an index upwards along the links, in so many steps. -/
def climb (ls : List Linked) : Nat → Nat → List Nat
  | 0, i => [i]
  | steps + 1, i =>
    match ls[i]?.bind (·.parent) with
    | none => [i]
    | some j => i :: climb ls steps j

/-- The indices from that of a line up to the top. There are fewer links than lines on the way. -/
def upward (ls : List Linked) (i : Nat) : List Nat := climb ls ls.length i

/-- The line at an index, if it stands below another. -/
def below? (ls : List Linked) (i : Nat) : Option Line :=
  ls[i]?.bind fun l => l.parent.map fun _ => l.line

/-- The lines from the top down to the one at an index, without the one above the top nodes. -/
def trailAt (ls : List Linked) (i : Nat) : List Line :=
  ((upward ls i).filterMap (below? ls)).reverse

/-- The owner of the line at an index: the first that is met on the way up. -/
def ownerAt (ls : List Linked) (owners : Nat → Option Findings) (i : Nat) : Option Findings :=
  (upward ls i).findSome? owners

/-- Where an outline was read from a text, the line above the top nodes alone has an owner. -/
def Findings.atTop (f : Findings) (i : Nat) : Option Findings := if i = 0 then some f else none

/-- Prints a complaint about the line at an index. -/
def printAt (ls : List Linked) (owners : Nat → Option Findings) (i : Nat) (c : Complaint) :
    Option Printed :=
  ls[i]?.map fun l => (Report.mk c l.line (trailAt ls i)).print (ownerAt ls owners i)

end Proviso.Outline

namespace Proviso

open Outline (Findings)

/-- What an event adds to the log, and what is found after it. -/
def Event.note (owner : Option Findings) : Event → Log.Record × Option Findings
  | .reported r =>
    let printed := r.print owner
    (printed.record, printed.owner)
  | .loaded mode clauses groups =>
    (Event.record (Findings.sourceOf owner) (.loaded mode clauses groups), owner)

/-- The records of events and what is found after them. -/
def Event.noteAll (owner : Option Findings) : List Event → List Log.Record × Option Findings
  | [] => ([], owner)
  | e :: es =>
    let first := e.note owner
    let rest := noteAll first.2 es
    (first.1 :: rest.1, rest.2)

end Proviso
