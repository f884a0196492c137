/-
  Applying rules.

  Applying a rule carries out its clauses one after another in the order of `allClauses`
  (`apply_eq_foldl`). A clause reads and writes the value of its own name only, so what becomes of
  a name is decided by its starting value and the clauses of that name (`get?_foldl_update`). The
  main result, `apply_by_name`, says so of whole rules, with its consequences: names that do not
  occur keep their entries, modes do not matter, and rules without a common name can be applied in
  either order.
-/
import Proviso.Ledger.Lookup
import Proviso.Rule.Evaluation

namespace Proviso

/-- The clauses of one name, in order. -/
def Clause.named (name : Text) (cs : List Clause) : List Clause := cs.filter fun c => c.name = name

/-- The value that clauses make of a value, one after another. -/
def Clause.evaluateAll (cs : List Clause) (start : Int) : Int :=
  cs.foldl (fun value c => c.evaluate value) start

/-! ## Clauses one after another -/

namespace Ledger

theorem read_update (l : Ledger) (c : Clause) (name : Text) :
    (l.update c).read name = if name = c.name then c.evaluate (l.read name) else l.read name := by
  unfold read
  rw [get?_update]
  split
  · rfl
  · rfl

/-- Clauses give each of their names a value and leave all other names alone. -/
theorem get?_foldl_update (cs : List Clause) (l : Ledger) (name : Text) :
    (cs.foldl update l).get? name
      = if name ∈ cs.map (·.name)
        then some (Clause.evaluateAll (Clause.named name cs) (l.read name)) else l.get? name := by
  induction cs generalizing l with
  | nil => simp
  | cons c cs ih =>
    rw [List.foldl_cons, ih, read_update, get?_update, List.map_cons]
    by_cases hname : name = c.name
    · have hnamed : Clause.named name (c :: cs) = c :: Clause.named name cs := by
        simp [Clause.named, hname]
      rw [if_pos hname, if_pos hname, if_pos (List.mem_cons.2 (.inl hname)), hnamed]
      by_cases hmem : name ∈ cs.map (·.name)
      · rw [if_pos hmem]
        rfl
      · -- No later clause has the name, so the value that `c` gives it stays.
        have hnone : Clause.named name cs = [] := by
          refine List.filter_eq_nil_iff.2 fun d hd heq => hmem ?_
          exact List.mem_map.2 ⟨d, hd, of_decide_eq_true heq⟩
        rw [if_neg hmem, hnone]
        rfl
    · have hnamed : Clause.named name (c :: cs) = Clause.named name cs := by
        simp [Clause.named, Ne.symm hname]
      have hiff : name ∈ c.name :: cs.map (·.name) ↔ name ∈ cs.map (·.name) := by
        simp [hname]
      rw [if_neg hname, if_neg hname, hnamed]
      simp only [hiff]

end Ledger

/-! ## Rules -/

namespace Rule

/-- The names of all clauses of the rule. -/
def names (r : Rule) : List Text := r.allClauses.map (·.name)

mutual

/-- Applying a rule carries out all of its clauses in order. -/
theorem apply_eq_foldl : (r : Rule) → (l : Ledger) →
    r.apply l = r.allClauses.foldl Ledger.update l
  | ⟨_, cs, gs⟩, l => by
    rw [apply, allClauses, List.foldl_append, applyAll_eq_foldl gs]

/-- Applying rules carries out the clauses of the first, then those of the next. -/
theorem applyAll_eq_foldl : (gs : List Rule) → (l : Ledger) →
    applyAll gs l = (allClausesOf gs).foldl Ledger.update l
  | [], l => by rw [applyAll, allClausesOf, List.foldl_nil]
  | g :: gs, l => by
    rw [applyAll, allClausesOf, List.foldl_append, apply_eq_foldl g, applyAll_eq_foldl gs]

end

/-- The entries of a ledger after a rule has been applied. -/
theorem get?_apply (r : Rule) (l : Ledger) (name : Text) :
    (r.apply l).get? name
      = if name ∈ r.names
        then some (Clause.evaluateAll (Clause.named name r.allClauses) (l.read name))
        else l.get? name := by
  rw [apply_eq_foldl, Ledger.get?_foldl_update]
  rfl

/-- The value of a name that does not occur in a rule is the same after the rule. -/
theorem read_apply_of_not_mem {r : Rule} {name : Text} (h : name ∉ r.names) (l : Ledger) :
    (r.apply l).read name = l.read name := by
  unfold Ledger.read
  rw [get?_apply, if_neg h]

mutual

/-- The rule with the mode `all` at every level. -/
def modeless : Rule → Rule
  | ⟨_, cs, gs⟩ => ⟨.all, cs, modelessAll gs⟩

/-- The rules with the mode `all` at every level. -/
def modelessAll : List Rule → List Rule
  | [] => []
  | g :: gs => modeless g :: modelessAll gs

end

mutual

theorem allClauses_modeless : (r : Rule) → r.modeless.allClauses = r.allClauses
  | ⟨_, cs, gs⟩ => by rw [modeless, allClauses, allClauses, allClausesOf_modelessAll gs]

theorem allClausesOf_modelessAll : (gs : List Rule) →
    allClausesOf (modelessAll gs) = allClausesOf gs
  | [] => rfl
  | g :: gs => by
    rw [modelessAll, allClausesOf, allClausesOf, allClauses_modeless g, allClausesOf_modelessAll gs]

end

/-- Rules that differ in nothing but modes do the same to a ledger. -/
theorem apply_eq_of_modeless_eq {r r' : Rule} (h : r'.modeless = r.modeless) (l : Ledger) :
    r'.apply l = r.apply l := by
  have hclauses : r'.allClauses = r.allClauses := by
    rw [← allClauses_modeless r', h, allClauses_modeless]
  rw [apply_eq_foldl, apply_eq_foldl, hclauses]

/-- Rules without a common name can be applied in either order: a name that occurs in one of them
is read by this one only, with the value that it had before both. -/
theorem apply_comm {r r' : Rule} (h : ∀ name ∈ r.names, name ∉ r'.names) (l : Ledger) :
    r'.apply (r.apply l) = r.apply (r'.apply l) := by
  refine Ledger.ext_get? fun name => ?_
  rw [get?_apply r', get?_apply r, get?_apply r, get?_apply r']
  by_cases hr : name ∈ r.names
  · have hr' : name ∉ r'.names := h name hr
    rw [if_neg hr', if_pos hr, if_pos hr, read_apply_of_not_mem hr']
  · rw [if_neg hr, if_neg hr, read_apply_of_not_mem hr]

/-- A rule gives each of its names the value that the clauses of this name make, one after another,
of the value before; it enters these names and no others, and leaves all other entries as they are.
Modes do not matter, nor does the order of two rules that have no name in common. -/
theorem apply_by_name (r : Rule) (l : Ledger) :
    (∀ name, ((r.apply l).get? name).isSome ↔ (l.get? name).isSome ∨ name ∈ r.names) ∧
    (∀ name ∈ r.names, (r.apply l).get? name
      = some (Clause.evaluateAll (Clause.named name r.allClauses) (l.read name))) ∧
    (∀ name, name ∉ r.names → (r.apply l).get? name = l.get? name) ∧
    (∀ r' : Rule, r'.modeless = r.modeless → r'.apply l = r.apply l) ∧
    ∀ r' : Rule, (∀ name ∈ r.names, name ∉ r'.names) →
      r'.apply (r.apply l) = r.apply (r'.apply l) := by
  have hin : ∀ name ∈ r.names, (r.apply l).get? name
      = some (Clause.evaluateAll (Clause.named name r.allClauses) (l.read name)) := by
    intro name hname
    rw [get?_apply, if_pos hname]
  have hout : ∀ name, name ∉ r.names → (r.apply l).get? name = l.get? name := by
    intro name hname
    rw [get?_apply, if_neg hname]
  refine ⟨fun name => ?_, hin, hout, fun r' h => apply_eq_of_modeless_eq h l,
    fun r' h => apply_comm h l⟩
  by_cases hname : name ∈ r.names
  · simp [hin name hname, hname]
  · simp [hout name hname, hname]

/-- The name `random` and the empty name are names like any other, a group that any one member would
satisfy is applied in full, and what one rule does to `x` does not depend on another one that
does not mention it. -/
theorem apply_by_name_nested :
    let x : Text := ['x']
    let inner : Rule := ⟨.any, [⟨randomName, .compare .less, 50⟩, ⟨x, .assign .capAbove, 3⟩], []⟩
    let last : Rule := ⟨.any, [⟨x, .assign .add, 1⟩], []⟩
    let r : Rule := ⟨.all, [⟨x, .assign .add, 5⟩, .never], [inner, last]⟩
    let r' : Rule := ⟨.all, [⟨['y'], .assign .subtract, 7⟩], []⟩
    let l : Ledger := .ofList [(['y'], 1), (['z'], 2)]
    x ∈ r.names ∧ (r.apply l).get? x = some 4 ∧ (r.apply l).get? randomName = some 1 ∧
      (r.apply l).get? [] = some 0 ∧ ['z'] ∉ r.names ∧ (r.apply l).get? ['z'] = some 2 ∧
      ⟨.any, r.clauses, r.groups⟩ ≠ r ∧ Rule.apply ⟨.any, r.clauses, r.groups⟩ l = r.apply l ∧
      (∀ name ∈ r.names, name ∉ r'.names) ∧ r'.apply (r.apply l) = r.apply (r'.apply l) := by
  intro x inner last r r' l
  obtain ⟨-, hin, hout, hmodes, hcomm⟩ := apply_by_name r l
  have hdisjoint : ∀ name ∈ r.names, name ∉ r'.names := by decide
  refine ⟨by decide, hin x (by decide), hin randomName (by decide), hin [] (by decide), by decide,
    hout ['z'] (by decide), ?_, hmodes _ rfl, hdisjoint, hcomm r' hdisjoint⟩
  intro h
  exact absurd (congrArg Rule.mode h) (by decide)

end Rule

end Proviso
