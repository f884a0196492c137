/-
  Rules: trees of clauses.

  A rule holds clauses and nested rules, its groups. Its mode says whether all of its members
  have to be true or any one of them; members are considered in order, clauses before groups.
-/
import Proviso.Operator

namespace Proviso

/-- How the members of a rule are combined. -/
inductive Mode where
  | all | any
  deriving DecidableEq, Repr

namespace Mode

/-- The word that stands for a mode in an outline. -/
def word : Mode → Text
  | .all => ['a', 'n', 'd']
  | .any => ['o', 'r']

/-- The mode that a word stands for. -/
def ofWord? (t : Text) : Option Mode :=
  if t = word .all then some .all else if t = word .any then some .any else none

/-- The truth value of a member that settles the truth value of the rule. -/
def decisive : Mode → Bool
  | .all => false
  | .any => true

/-- The mode that a header line announces by its first token. -/
def ofHeader (firstToken : Text) : Mode := if firstToken = word .any then .any else .all

end Mode

/-- Clauses and groups under a mode. -/
inductive Rule where
  | mk (mode : Mode) (clauses : List Clause) (groups : List Rule)
  deriving Repr

namespace Rule

/-- The rule of a mode without members. -/
def empty (mode : Mode) : Rule := ⟨mode, [], []⟩

/-- How the members are combined. -/
def mode : Rule → Mode
  | ⟨m, _, _⟩ => m

/-- The clauses directly in the rule. -/
def clauses : Rule → List Clause
  | ⟨_, cs, _⟩ => cs

/-- The rules directly in the rule. -/
def groups : Rule → List Rule
  | ⟨_, _, gs⟩ => gs

/-- The rule with another mode. -/
def withMode : Rule → Mode → Rule
  | ⟨_, cs, gs⟩, m => ⟨m, cs, gs⟩

/-- The rule with one more clause, behind the others. -/
def addClause : Rule → Clause → Rule
  | ⟨m, cs, gs⟩, c => ⟨m, cs ++ [c], gs⟩

/-- The rule with one more group, behind the others. -/
def addGroup : Rule → Rule → Rule
  | ⟨m, cs, gs⟩, g => ⟨m, cs, gs ++ [g]⟩

/-- Whether the rule has no members. -/
def isEmpty : Rule → Bool
  | ⟨_, cs, gs⟩ => cs.isEmpty && gs.isEmpty

mutual

/-- All clauses of the rule and of the rules in it: its own first, then those of each group. -/
def allClauses : Rule → List Clause
  | ⟨_, cs, gs⟩ => cs ++ allClausesOf gs

/-- All clauses of rules, one rule after another. -/
def allClausesOf : List Rule → List Clause
  | [] => []
  | g :: gs => allClauses g ++ allClausesOf gs

end

mutual

/-- Whether two rules have the same mode and the same members. -/
def beq : Rule → Rule → Bool
  | ⟨m, cs, gs⟩, ⟨n, ds, hs⟩ => m == n && cs == ds && beqAll gs hs

/-- Whether two lists of rules agree. -/
def beqAll : List Rule → List Rule → Bool
  | [], [] => true
  | g :: gs, h :: hs => beq g h && beqAll gs hs
  | _, _ => false

end

instance : BEq Rule := ⟨beq⟩

/-- Whether the rule has, anywhere in it, both a comparison and an assignment. -/
def isMixed (r : Rule) : Bool :=
  r.allClauses.any (·.operator.isComparison) && r.allClauses.any (!·.operator.isComparison)

end Rule

end Proviso
