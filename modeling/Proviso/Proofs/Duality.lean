/-
  Rules and their duals.

  The dual of a rule has the other mode at every level and the opposite comparison in every clause.
  Surveying it is surveying the rule with every look turned round, to the opposite answer
  (`survey_dual`): a value that decides the one is the opposite of the value that decides the other,
  so both stop at the same leaf. A rule of comparisons is therefore tested to the opposite answer as
  its dual, with the same numbers drawn (`test_dual`).
-/
import Proviso.Proofs.Dependence

namespace Proviso

variable {σ : Type}

/-! ## Duals -/

/-- The comparison that holds of what this one does not hold of. -/
def Comparison.complement : Comparison → Comparison
  | .equal => .unequal
  | .unequal => .equal
  | .less => .atLeast
  | .atLeast => .less
  | .greater => .atMost
  | .atMost => .greater

/-- The operator with the opposite comparison; an assignment has no opposite and stays. -/
def Operator.complement : Operator → Operator
  | .compare c => .compare c.complement
  | .assign a => .assign a

/-- The clause with the opposite operator. -/
def Clause.complement (c : Clause) : Clause := { c with operator := c.operator.complement }

/-- The leaf with the opposite clause. -/
def Leaf.complement (x : Leaf) : Leaf := { x with clause := x.clause.complement }

/-- The other mode. -/
def Mode.dual : Mode → Mode
  | .all => .any
  | .any => .all

namespace Rule

mutual

/-- The rule with the other mode and the opposite clauses, at every level. -/
def dual : Rule → Rule
  | ⟨mode, cs, gs⟩ => ⟨mode.dual, cs.map Clause.complement, dualAll gs⟩

/-- The duals of rules. -/
def dualAll : List Rule → List Rule
  | [] => []
  | g :: gs => dual g :: dualAll gs

end

end Rule

theorem Comparison.holds_complement (c : Comparison) (x y : Int) :
    c.complement.holds x y = !c.holds x y := by
  cases c with
  | equal => rfl
  | unequal => exact (Bool.not_not _).symm
  | less => simp [complement, holds, ← decide_not]
  | greater => simp [complement, holds, ← decide_not]
  | atMost => simp [complement, holds, ← decide_not]
  | atLeast => simp [complement, holds, ← decide_not]

theorem Clause.isTrue_compare (name : Text) (c : Comparison) (operand x : Int) :
    (Clause.mk name (.compare c) operand).isTrue x = c.holds x operand := by
  show ((if c.holds x operand then (1 : Int) else 0) != 0) = c.holds x operand
  cases c.holds x operand with
  | true => rfl
  | false => rfl

theorem Clause.isTrue_complement {c : Clause} (h : c.operator.isComparison = true) (x : Int) :
    c.complement.isTrue x = !c.isTrue x := by
  obtain ⟨name, op, operand⟩ := c
  cases op with
  | compare c => rw [Clause.isTrue_compare, ← c.holds_complement, ← Clause.isTrue_compare name]; rfl
  | assign a => exact absurd h (by simp [Operator.isComparison])

theorem Mode.decisive_dual (m : Mode) : m.dual.decisive = !m.decisive := by
  cases m <;> rfl

/-! ## Surveys of duals -/

/-- The opposite answer. -/
def opposite (found : Bool × σ) : Bool × σ := (!found.1, found.2)

/-- Looks at the opposite of a leaf and turns the answer round. -/
def turned (look : Leaf → σ → Bool × σ) (x : Leaf) (s : σ) : Bool × σ :=
  opposite (look x.complement s)

/-- Whether an answer is the decisive one is the same question about the opposites. -/
theorem settles_opposite (decisive : Bool) (found : Bool × σ) :
    settles decisive (opposite found) = settles (!decisive) found := by
  unfold settles opposite
  cases found.1 <;> cases decisive <;> rfl

theorem opposite_settles (decisive : Bool) (found : Bool × σ) :
    opposite (settles decisive found) = settles (!decisive) found := by
  unfold settles opposite
  cases found.1 <;> cases decisive <;> rfl

namespace Rule

theorem leavesAt_complement (path : List Nat) (cs : List Clause) :
    leavesAt path (cs.map Clause.complement) = (leavesAt path cs).map Leaf.complement := by
  refine List.ext_getElem? fun i => ?_
  unfold leavesAt
  rw [List.getElem?_map, List.getElem?_mapIdx, List.getElem?_mapIdx, List.getElem?_map,
    Option.map_map, Option.map_map]
  rfl

variable (look : Leaf → σ → Bool × σ)

theorem surveyLeaves_complement (decisive : Bool) (xs : List Leaf) (s : σ) :
    surveyLeaves look (!decisive) (xs.map Leaf.complement) s
      = surveyLeaves (turned look) decisive xs s := by
  induction xs generalizing s with
  | nil => rfl
  | cons x xs ih =>
    rw [List.map_cons, surveyLeaves, surveyLeaves, turned, settles_opposite, funext ih]

mutual

/-- Surveying the dual of a rule comes to the opposite of surveying the rule with every look turned
round. -/
theorem survey_dual (path : List Nat) : (r : Rule) → (s : σ) →
    r.dual.survey look path s = opposite (r.survey (turned look) path s)
  | ⟨mode, cs, gs⟩, s => by
    rw [dual, survey, survey, opposite_settles, Mode.decisive_dual, leavesAt_complement,
      surveyLeaves_complement, funext (surveyGroups_dual mode.decisive path 0 gs)]

theorem surveyGroups_dual (decisive : Bool) (path : List Nat) (k : Nat) : (gs : List Rule) →
    (s : σ) → surveyGroups look (!decisive) path k (dualAll gs) s
      = surveyGroups (turned look) decisive path k gs s
  | [], _ => rfl
  | g :: gs, s => by
    rw [dualAll, surveyGroups, surveyGroups, survey_dual (path ++ [k]) g,
      funext (surveyGroups_dual decisive path (k + 1) gs), settles_opposite, Bool.not_not]

end

end Rule

/-! ## Tests of duals -/

/-- Testing the opposite of a comparison draws the same number, if any. -/
theorem Clause.test_complement (source : Source σ) (ledger : Ledger) {c : Clause}
    (h : c.operator.isComparison = true) (s : σ) :
    c.complement.test source ledger s = opposite (c.test source ledger s) := by
  have hname : c.complement.name = c.name := rfl
  unfold Clause.test
  rw [hname]
  split
  · exact Prod.ext (Clause.isTrue_complement h _) rfl
  · exact Prod.ext (Clause.isTrue_complement h _) rfl

namespace Rule

theorem test_dual_eq (source : Source σ) (ledger : Ledger) {r : Rule}
    (h : ∀ c ∈ r.allClauses, c.operator.isComparison = true) (s : σ) :
    r.dual.test source ledger s = opposite (r.test source ledger s) := by
  have hlook : ∀ x ∈ r.leaves [],
      turned (Leaf.test source ledger) x = Leaf.test source ledger x := by
    intro x hx
    funext s
    have hcomplement := Clause.test_complement source ledger (h _ (clause_mem_allClauses hx)) s
    show opposite (x.clause.complement.test source ledger s) = x.clause.test source ledger s
    rw [hcomplement, opposite, opposite, Bool.not_not]
  rw [test_eq_survey source ledger [], test_eq_survey source ledger [], survey_dual,
    survey_congr [] r hlook]

/-- The dual of a rule of comparisons is true exactly if the rule is not, for the same values and
the same source, and both tests draw the same numbers and leave the source in the same state. -/
theorem test_dual (source : Source σ) (ledger : Ledger) (r : Rule)
    (h : ∀ c ∈ r.allClauses, c.operator.isComparison = true) (s : σ) :
    (r.dual.test source ledger s).1 = !(r.test source ledger s).1 ∧
    r.dual.drawn source ledger s = r.drawn source ledger s ∧
    (r.dual.test source ledger s).2 = (r.test source ledger s).2 := by
  have htest := test_dual_eq source ledger h s
  have hdrawn : r.dual.drawn source ledger s = r.drawn source ledger s := by
    unfold drawn
    rw [test_dual_eq source.recorded ledger h (s, []), opposite]
  rw [htest, opposite]
  exact ⟨rfl, hdrawn, rfl⟩

/-- All six comparisons, an empty group, and a group that is left before its last draw. -/
theorem test_dual_six_comparisons :
    let clause : Comparison → Int → Clause := fun c i => ⟨['x'], .compare c, i⟩
    let random : Comparison → Int → Clause := fun c i => ⟨randomName, .compare c, i⟩
    let r : Rule := ⟨.all, [random .less 50, clause .equal 2, clause .atLeast 2],
      [⟨.any, [clause .unequal 2, random .greater 30, random .atMost 30, random .equal 0], []⟩,
        ⟨.any, [], [⟨.all, [], []⟩]⟩, ⟨.any, [], []⟩, ⟨.all, [random .less 1], []⟩]⟩
    let ledger : Ledger := .ofList [(['x'], 2)]
    (∀ c ∈ r.allClauses, c.operator.isComparison = true) ∧
      r.test .script ledger [20, 30, 30, 99] = (false, [99]) ∧
      r.drawn .script ledger [20, 30, 30, 99] = [20, 30, 30] ∧
      r.dual.test .script ledger [20, 30, 30, 99] = (true, [99]) ∧
      r.dual.drawn .script ledger [20, 30, 30, 99] = [20, 30, 30] := by
  intro clause random r ledger
  have hcomparisons : ∀ c ∈ r.allClauses, c.operator.isComparison = true := by decide
  have htest : r.test .script ledger [20, 30, 30, 99] = (false, [99]) := by decide
  have hdrawn : r.drawn .script ledger [20, 30, 30, 99] = [20, 30, 30] := by decide
  obtain ⟨hanswer, hsame, hstate⟩ := test_dual .script ledger r hcomparisons [20, 30, 30, 99]
  refine ⟨hcomparisons, htest, hdrawn, Prod.ext ?_ ?_, hsame.trans hdrawn⟩
  · rw [hanswer, htest]
    rfl
  · rw [hstate, htest]

end Rule

end Proviso
