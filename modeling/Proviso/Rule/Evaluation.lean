/-
  Testing and applying rules.

  A test reads the values of a ledger and never changes it; the name `random` stands for a
  fresh random number instead. Members are looked at in order and no further than the first
  one that settles the matter, so only the clauses that are looked at draw. Applying a rule
  carries out all of its clauses, whatever the modes are.
-/
import Proviso.Ledger
import Proviso.Random.Source
import Proviso.Rule.Basic

namespace Proviso

/-- The name that stands for a fresh random number in a test. -/
def randomName : Text := ['r', 'a', 'n', 'd', 'o', 'm']

/-- Random numbers in a test are below this bound. -/
def randomBound : Nat := 100

variable {σ : Type}

/-- The truth of a clause, with the state of the source afterwards. -/
def Clause.test (source : Source σ) (ledger : Ledger) (c : Clause) (s : σ) : Bool × σ :=
  if c.name = randomName then
    let (value, s) := source.draw randomBound s
    (c.isTrue value, s)
  else (c.isTrue (ledger.read c.name), s)

namespace Rule

/-- Whether one of the clauses has the truth value `decisive`; the clauses behind the first that
has it are not looked at. -/
def clausesDecide (source : Source σ) (ledger : Ledger) (decisive : Bool) :
    List Clause → σ → Bool × σ
  | [], s => (false, s)
  | c :: cs, s =>
    match c.test source ledger s with
    | (truth, s) =>
      if truth = decisive then (true, s) else clausesDecide source ledger decisive cs s

mutual

/-- The truth of a rule, with the state of the source afterwards. -/
def test (source : Source σ) (ledger : Ledger) : Rule → σ → Bool × σ
  | ⟨mode, clauses, groups⟩, s =>
    match clausesDecide source ledger mode.decisive clauses s with
    | (true, s) => (mode.decisive, s)
    | (false, s) =>
      match groupsDecide source ledger mode.decisive groups s with
      | (true, s) => (mode.decisive, s)
      | (false, s) => (!mode.decisive, s)

/-- Whether one of the rules has the truth value `decisive`; the rules behind the first that has
it are not looked at. -/
def groupsDecide (source : Source σ) (ledger : Ledger) (decisive : Bool) :
    List Rule → σ → Bool × σ
  | [], s => (false, s)
  | g :: gs, s =>
    match test source ledger g s with
    | (truth, s) =>
      if truth = decisive then (true, s) else groupsDecide source ledger decisive gs s

end

mutual

/-- The ledger after a rule has been applied: its own clauses first, then each group. -/
def apply : Rule → Ledger → Ledger
  | ⟨_, clauses, groups⟩, ledger => applyAll groups (clauses.foldl Ledger.update ledger)

/-- The ledger after rules have been applied one after another. -/
def applyAll : List Rule → Ledger → Ledger
  | [], ledger => ledger
  | g :: gs, ledger => applyAll gs (apply g ledger)

end

end Rule

end Proviso
