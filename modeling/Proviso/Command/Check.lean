/-
  The report of a check.

  A check reports every diagnostic of an outline and warns of every rule that mixes
  comparisons and assignments. It fails if there are diagnostics, or if there are warnings and
  warnings count as errors.
-/
import Proviso.Rule.Collection

namespace Proviso.Command.Check

open Outline (Node Report)

/-- The warnings about rules, each under the header at the same place. -/
def warnings : List Node → List Rule → List Text
  | n :: ns, r :: rs =>
    let rest := warnings ns rs
    if r.isMixed then
      (['L'] ++ Text.ofInt n.line.number ++ ": ".toList ++ n.line.text
        ++ ": mixes comparison and assignment operators".toList) :: rest
    else rest
  | _, _ => []

/-- The line about a report. -/
def errorLine (r : Report) : Text :=
  "  [E] L".toList ++ Text.ofInt r.line.number ++ ": ".toList ++ r.complaint.message ++ [' ']
    ++ r.line.text

/-- The line about a warning. -/
def warningLine (w : Text) : Text := "  [W] ".toList ++ w

/-- Whether a check fails. -/
def fails (strict : Bool) (errors warnings : Nat) : Bool :=
  0 < errors || (strict && 0 < warnings)

/-- The lines of the report of a check. -/
def lines (strict : Bool) (rules : Nat) (reports : List Report) (warnings : List Text) :
    List Text :=
  ["Parsed: ".toList ++ Text.ofNat rules ++ " condition set(s)".toList]
    ++ reports.map errorLine
    ++ warnings.map warningLine
    ++ [[],
        "Check: ".toList ++ Text.ofNat reports.length ++ " error(s), ".toList
          ++ Text.ofNat warnings.length ++ " warning(s)".toList]
    ++ (if fails strict reports.length warnings.length then
          ["FAIL: Fix errors before using this file.".toList]
        else [])

end Proviso.Command.Check
