/-
  Rules from outlines.

  Each line below a header is one member of the rule: `never`, a word `and` or `or` that
  opens a group from the lines below it, a name with an operator and a number, or one of
  six shorter forms. A line that is none of these is reported and left out, together with
  what is below it. Loading is interrupted only by a numeral that is too long; what has been
  loaded before it stays.
-/
import Proviso.Outline.Report
import Proviso.Rule.Basic

namespace Proviso

open Outline (Line Node Position Complaint Report)

/-- What one line is to a rule. -/
inductive Entry where
  | clause (c : Clause)
  /-- The lines below form a group. -/
  | group (mode : Mode)
  /-- The line cannot be used, for the reasons given. -/
  | rejected (complaints : List Complaint)
  deriving DecidableEq, Repr

namespace Entry

/-- The word that stands for the clause that is never satisfied. -/
def neverWord : Text := ['n', 'e', 'v', 'e', 'r']

/-- What a keyword says about the name after it. -/
def keyword? (t : Text) : Option (Operator × Int) :=
  if t = ['n', 'o', 't'] then some (.compare .equal, 0)
  else if t = ['h', 'a', 's'] then some (.compare .unequal, 0)
  else if t = ['s', 'e', 't'] then some (.assign .replace, 1)
  else if t = ['c', 'l', 'e', 'a', 'r'] then some (.assign .replace, 0)
  else none

/-- What a suffix says about the name before it. -/
def suffix? (t : Text) : Option (Operator × Int) :=
  if t = ['+', '+'] then some (.assign .add, 1)
  else if t = ['-', '-'] then some (.assign .subtract, 1)
  else none

/-- The clause of a line of two tokens. A keyword in front goes before a suffix behind. -/
def ofTwo? (first second : Text) : Option Clause :=
  match keyword? first with
  | some (op, operand) => some ⟨second, op, operand⟩
  | none => (suffix? second).map fun (op, operand) => ⟨first, op, operand⟩

/-- The clause of a name, a spelled operator and a number, of which the integer part counts. -/
def ofThree? (name op : Text) (number : Number) : Option Clause :=
  match number.trunc?, Operator.ofSpelling? op with
  | some operand, some operator => some ⟨name, operator, operand⟩
  | _, _ => none

/-- The entry for a clause if there is one, and else the complaints and that the line is not
recognized. -/
def ofClause? (complaints : List Complaint) : Option Clause → Entry
  | some c => .clause c
  | none => .rejected (complaints ++ [.unrecognized])

/-- What a line is to a rule. -/
def ofLine (l : Line) : Except Numeral.Fault Entry :=
  match l.tokens with
  | [word] =>
    if word = neverWord then .ok (.clause .never)
    else
      match Mode.ofWord? word with
      | some mode => .ok (.group mode)
      | none => .ok (.rejected [.unrecognized])
  | [first, second] => .ok (ofClause? [] (ofTwo? first second))
  | [name, op, _] =>
    (l.value 2).map fun (number, complaints) => ofClause? complaints (ofThree? name op number)
  | _ => .ok (.rejected [.unrecognized])

end Entry

/-- What happens while rules are loaded. -/
inductive Event where
  /-- A line is complained about. -/
  | reported (report : Report)
  /-- A rule of a mode is complete, with so many clauses and groups directly in it. -/
  | loaded (mode : Mode) (clauses groups : Nat)
  deriving DecidableEq, Repr

/-- The report of an event, if it is one. -/
def Event.report? : Event → Option Report
  | .reported r => some r
  | .loaded .. => none

/-- The state of loading: the rule so far, what has happened, and the fault that stopped it. -/
structure Loading where
  rule : Rule
  events : List Event
  fault : Option Numeral.Fault

namespace Loading

/-- Goes on with the rule, unless loading has stopped. -/
def andThen (l : Loading) (next : Rule → Loading) : Loading :=
  match l.fault with
  | some _ => l
  | none =>
    let r := next l.rule
    ⟨r.rule, l.events ++ r.events, r.fault⟩

/-- Loading that has ended without a fault, with the event that says so. -/
def complete (l : Loading) : Loading :=
  l.andThen fun r => ⟨r, [.loaded r.mode r.clauses.length r.groups.length], none⟩

/-- The reports in order. -/
def reports (l : Loading) : List Report := l.events.filterMap Event.report?

end Loading

namespace Rule

mutual

/-- Takes one line, with the lines `above` it, into a rule. A group is taken in only when it is
complete. -/
def add (above : List Line) (rule : Rule) : Node → Loading
  | ⟨line, children⟩ =>
    match Entry.ofLine line with
    | .error fault => ⟨rule, [], some fault⟩
    | .ok (.clause c) => ⟨rule.addClause c, [], none⟩
    | .ok (.rejected complaints) =>
      ⟨rule, complaints.map fun c => .reported (.about ⟨above, ⟨line, children⟩⟩ c), none⟩
    | .ok (.group mode) =>
      let group := (addAll (above ++ [line]) (.empty mode) children).complete
      match group.fault with
      | some fault => ⟨rule, group.events, some fault⟩
      | none => ⟨rule.addGroup group.rule, group.events, none⟩

/-- Takes lines into a rule, one after another. -/
def addAll (above : List Line) (rule : Rule) : List Node → Loading
  | [] => ⟨rule, [], none⟩
  | n :: ns => (add above rule n).andThen fun r => addAll above r ns

end

/-- Takes all lines below a header into a rule, which gets the mode that the header announces. -/
def load (rule : Rule) (header : Position) : Loading :=
  let line := header.node.line
  (addAll (header.above ++ [line]) (rule.withMode (.ofHeader (line.token 0)))
    header.node.children).complete

/-- The rule below a header. -/
def ofHeader (header : Position) : Loading := load (.empty .all) header

end Rule

end Proviso
