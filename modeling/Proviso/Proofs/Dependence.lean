/-
  What a test depends on.

  A survey asks nothing of a way of looking but how it looks at the leaves of the rule
  (`survey_congr`), and testing a leaf asks nothing of a ledger but the value of its name, and not
  even that if the name stands for a random number. So two ledgers with the same values under the
  names of a rule, missing entries counted as 0, are the same to every test of it: in the answer, in
  the numbers drawn and in the state of the source (`test_eq_of_reads_eq`).
-/
import Proviso.Ledger.Lookup
import Proviso.Proofs.ShortCircuit

namespace Proviso

variable {σ : Type}

/-- The numbers that a test draws, in order. -/
def Rule.drawn (source : Source σ) (ledger : Ledger) (r : Rule) (s : σ) : List Int :=
  (r.test source.recorded ledger (s, [])).2.2.reverse

namespace Rule

variable {look look' : Leaf → σ → Bool × σ}

theorem surveyLeaves_congr (decisive : Bool) {xs : List Leaf} (h : ∀ x ∈ xs, look x = look' x)
    (s : σ) : surveyLeaves look decisive xs s = surveyLeaves look' decisive xs s := by
  induction xs generalizing s with
  | nil => rfl
  | cons x xs ih =>
    rw [List.forall_mem_cons] at h
    rw [surveyLeaves, surveyLeaves, h.1, funext (ih h.2)]

mutual

/-- Two ways of looking that agree on the leaves of a rule survey it alike. -/
theorem survey_congr (path : List Nat) : (r : Rule) → (∀ x ∈ r.leaves path, look x = look' x) →
    (s : σ) → r.survey look path s = r.survey look' path s
  | ⟨mode, cs, gs⟩, h, s => by
    rw [leaves, List.forall_mem_append] at h
    rw [survey, survey, surveyLeaves_congr mode.decisive h.1,
      funext (surveyGroups_congr mode.decisive path 0 gs h.2)]

theorem surveyGroups_congr (decisive : Bool) (path : List Nat) (k : Nat) : (gs : List Rule) →
    (∀ x ∈ leavesOf path k gs, look x = look' x) → (s : σ) →
      surveyGroups look decisive path k gs s = surveyGroups look' decisive path k gs s
  | [], _, _ => rfl
  | g :: gs, h, s => by
    rw [leavesOf, List.forall_mem_append] at h
    rw [surveyGroups, surveyGroups, survey_congr (path ++ [k]) g h.1,
      funext (surveyGroups_congr decisive path (k + 1) gs h.2)]

end

theorem clause_mem_allClauses {r : Rule} {path : List Nat} {x : Leaf} (h : x ∈ r.leaves path) :
    x.clause ∈ r.allClauses := by
  rw [← clause_leaves path r]
  exact List.mem_map_of_mem h

end Rule

theorem Clause.test_congr (source : Source σ) {c : Clause} {l l' : Ledger}
    (h : c.name ≠ randomName → l.read c.name = l'.read c.name) :
    c.test source l = c.test source l' := by
  funext s
  unfold Clause.test
  by_cases hname : c.name = randomName
  · rw [if_pos hname, if_pos hname]
  · rw [if_neg hname, if_neg hname, h hname]

namespace Rule

theorem test_congr (source : Source σ) {r : Rule} {l l' : Ledger}
    (h : ∀ c ∈ r.allClauses, c.name ≠ randomName → l.read c.name = l'.read c.name) (s : σ) :
    r.test source l s = r.test source l' s := by
  have hlook : ∀ x ∈ r.leaves [], Leaf.test source l x = Leaf.test source l' x := fun x hx =>
    Clause.test_congr source (h x.clause (clause_mem_allClauses hx))
  rw [test_eq_survey source l [], test_eq_survey source l' [], survey_congr [] r hlook]

/-- A test depends on nothing but the values of the names in the rule, those of clauses at any
depth, without the name that stands for a random number. Whatever else two ledgers hold, the test
has the same answer, draws the same numbers, and leaves the source in the same state. -/
theorem test_eq_of_reads_eq (source : Source σ) (r : Rule) (l l' : Ledger)
    (h : ∀ c ∈ r.allClauses, c.name ≠ randomName → l.read c.name = l'.read c.name) (s : σ) :
    (r.test source l s).1 = (r.test source l' s).1 ∧
    r.drawn source l s = r.drawn source l' s ∧
    (r.test source l s).2 = (r.test source l' s).2 := by
  have htest : r.test source l s = r.test source l' s := test_congr source h s
  have hdrawn : r.drawn source l s = r.drawn source l' s := by
    unfold drawn
    rw [test_congr source.recorded h (s, [])]
  exact ⟨congrArg Prod.fst htest, hdrawn, congrArg Prod.snd htest⟩

/-- One ledger has no entry where the other holds 0, and they differ in an entry under the name of
random numbers and in one that the rule does not name. Of the three draws the last is made in a
group. -/
theorem test_eq_of_reads_eq_three_draws :
    let random : Int → Clause := fun i => ⟨randomName, .compare .less, i⟩
    let r : Rule := ⟨.all, [random 50, ⟨['x'], .compare .equal, 0⟩],
      [⟨.any, [⟨['y'], .assign .add, -3⟩, random 10, random 90, random 5], []⟩]⟩
    let l : Ledger := .ofList [(['x'], 0), (['y'], 3), (randomName, 7), (['z'], 1)]
    let l' : Ledger := .ofList [(['y'], 3), (['z'], 2)]
    (∀ c ∈ r.allClauses, c.name ≠ randomName → l.read c.name = l'.read c.name) ∧
      r.drawn .script l [20, 30, 40, 99] = [20, 30, 40] ∧
      r.drawn .script l' [20, 30, 40, 99] = [20, 30, 40] ∧
      r.test .script l [20, 30, 40, 99] = (true, [99]) ∧
      r.test .script l' [20, 30, 40, 99] = (true, [99]) := by
  intro random r l l'
  have hreads : ∀ c ∈ r.allClauses, c.name ≠ randomName → l.read c.name = l'.read c.name := by
    decide
  have hdrawn : r.drawn .script l [20, 30, 40, 99] = [20, 30, 40] := by decide
  have htest : r.test .script l [20, 30, 40, 99] = (true, [99]) := by decide
  obtain ⟨hanswer, hsame, hstate⟩ := test_eq_of_reads_eq .script r l l' hreads [20, 30, 40, 99]
  refine ⟨hreads, hdrawn, hsame.symm.trans hdrawn, htest, Prod.ext ?_ ?_⟩
  · rw [← hanswer, htest]
  · rw [← hstate, htest]

end Rule

end Proviso
