/-
  Operators on integers.

  A comparison asks about the current value and answers with 1 or 0. An assignment gives the
  value that is to be current next. Each operator has one spelling.
-/
import Proviso.Text.Basic

namespace Proviso

/-- A question about the current value. -/
inductive Comparison where
  | equal | unequal | less | greater | atMost | atLeast
  deriving DecidableEq, Repr

/-- A change of the current value. -/
inductive Assignment where
  /-- The operand replaces the value. -/
  | replace
  /-- The operand is added. -/
  | add
  /-- The operand is subtracted. -/
  | subtract
  /-- The value is lowered to the operand if it is above it. -/
  | capAbove
  /-- The value is raised to the operand if it is below it. -/
  | capBelow
  deriving DecidableEq, Repr

/-- A comparison or an assignment. -/
inductive Operator where
  | compare (c : Comparison)
  | assign (a : Assignment)
  deriving DecidableEq, Repr

/-- Whether a comparison holds of the current value and the operand. -/
def Comparison.holds : Comparison → Int → Int → Bool
  | .equal, x, y => x == y
  | .unequal, x, y => x != y
  | .less, x, y => x < y
  | .greater, x, y => y < x
  | .atMost, x, y => x ≤ y
  | .atLeast, x, y => y ≤ x

/-- The value after an assignment. -/
def Assignment.next : Assignment → Int → Int → Int
  | .replace, _, y => y
  | .add, x, y => x + y
  | .subtract, x, y => x - y
  | .capAbove, x, y => min x y
  | .capBelow, x, y => max x y

namespace Operator

/-- The result of an operator on the current value and the operand. -/
def apply : Operator → Int → Int → Int
  | .compare c, x, y => if c.holds x y then 1 else 0
  | .assign a, x, y => a.next x y

/-- Whether the operator is a comparison. -/
def isComparison : Operator → Bool
  | .compare _ => true
  | .assign _ => false

/-- The spelling of an operator. -/
def spelling : Operator → Text
  | .compare .equal => ['=', '=']
  | .compare .unequal => ['!', '=']
  | .compare .less => ['<']
  | .compare .greater => ['>']
  | .compare .atMost => ['<', '=']
  | .compare .atLeast => ['>', '=']
  | .assign .replace => ['=']
  | .assign .add => ['+', '=']
  | .assign .subtract => ['-', '=']
  | .assign .capAbove => ['<', '?', '=']
  | .assign .capBelow => ['>', '?', '=']

/-- All operators. -/
def all : List Operator :=
  [.compare .equal, .compare .unequal, .compare .less, .compare .greater, .compare .atMost,
   .compare .atLeast, .assign .replace, .assign .add, .assign .subtract, .assign .capAbove,
   .assign .capBelow]

/-- The operator with a spelling. -/
def ofSpelling? (t : Text) : Option Operator := all.find? fun op => op.spelling == t

end Operator

/-- One operator with an operand, for the condition of a name. The empty name is a name. -/
structure Clause where
  name : Text
  operator : Operator
  operand : Int
  deriving DecidableEq, Repr

namespace Clause

/-- The result of the clause for a current value. -/
def evaluate (c : Clause) (current : Int) : Int := c.operator.apply current c.operand

/-- Whether the clause counts as true for a current value: its result is not zero. -/
def isTrue (c : Clause) (current : Int) : Bool := c.evaluate current != 0

/-- The clause that no value of a missing condition satisfies. -/
def never : Clause := ⟨[], .compare .unequal, 0⟩

end Clause

end Proviso
