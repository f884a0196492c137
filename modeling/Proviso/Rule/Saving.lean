/-
  Rules as outlines.

  Every clause is written in its full form, name, operator and number, every group as the
  word for its mode with the members one level deeper. Saving stops at the first line that
  cannot be written and leaves what stands before it; the blocks that are open then stay open.
-/
import Proviso.Outline.Writer
import Proviso.Rule.Basic

namespace Proviso

open Outline (Draft Word)

/-- The state of saving: the draft so far, and the fault that stopped it. -/
structure Saving where
  draft : Draft
  fault : Option Draft.Fault

namespace Saving

/-- Goes on with the draft, unless saving has stopped. -/
def andThen (s : Saving) (next : Draft → Saving) : Saving :=
  match s.fault with
  | some _ => s
  | none => next s.draft

/-- One step on a draft, which stays as it is if the step fails. -/
def attempt (d : Draft) (step : Draft → Except Draft.Fault Draft) : Saving :=
  match step d with
  | .ok next => ⟨next, none⟩
  | .error fault => ⟨d, some fault⟩

/-- The draft if saving has not stopped. -/
def result (s : Saving) : Except Draft.Fault Draft :=
  match s.fault with
  | none => .ok s.draft
  | some fault => .error fault

end Saving

/-- The words of the line of a clause. -/
def Clause.words (c : Clause) : List Word :=
  [.token c.name, .token c.operator.spelling, .integer c.operand]

namespace Rule

/-- Writes clauses, one a line. -/
def saveClauses : List Clause → Draft → Saving
  | [], d => ⟨d, none⟩
  | c :: cs, d => (Saving.attempt d (·.write c.words)).andThen (saveClauses cs)

mutual

/-- Writes the members of a rule. -/
def save : Rule → Draft → Saving
  | ⟨_, clauses, groups⟩, d => (saveClauses clauses d).andThen fun d => saveGroups groups d

/-- Writes groups: for each the word for its mode and, in a block, its members. -/
def saveGroups : List Rule → Draft → Saving
  | [], d => ⟨d, none⟩
  | g :: gs, d =>
    ((Saving.attempt d (·.write [.token g.mode.word])).andThen fun d =>
      (save g d.openBlock).andThen fun d => Saving.attempt d Draft.closeBlock).andThen
        fun d => saveGroups gs d

end

/-- Writes a header line and, in a block, the members of a rule. -/
def saveUnder (header : List Text) (r : Rule) (d : Draft) : Saving :=
  (Saving.attempt d (·.write (header.map .token))).andThen fun d =>
    (r.save d.openBlock).andThen fun d => Saving.attempt d Draft.closeBlock

/-- The text of the members of a rule. -/
def text (r : Rule) : Except Draft.Fault Text := (r.save .empty).result.map Draft.text

/-- The text of a rule under the word for its mode. -/
def textWithHeader (r : Rule) : Except Draft.Fault Text :=
  (r.saveUnder [r.mode.word] .empty).result.map Draft.text

end Rule

end Proviso
