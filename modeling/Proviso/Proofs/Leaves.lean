/-
  The leaves of a rule, and its value.

  A leaf is a clause together with its place in a rule; equal clauses at different places are
  different leaves. `value` is the truth of a rule without regard to any order: the conjunction or
  disjunction of the truth values of all its members. `Reached` says which leaves cannot be left out
  when members are considered in order: those that no earlier member of their own rule, nor of any
  rule around it, makes superfluous. `leaves` lists the leaves in order, each once (`nodup_leaves`).
-/
import Mathlib.Data.List.Nodup
import Proviso.Rule.Evaluation

namespace Proviso

/-- A clause at its place: the indices of the groups that lead to it, and its own index among the
clauses of the last of them. -/
structure Leaf where
  path : List Nat
  index : Nat
  clause : Clause
  deriving DecidableEq, Repr

/-- A leaf that draws when its truth is asked for. -/
def Leaf.isRandom (x : Leaf) : Bool := x.clause.name = randomName

/-- The truth of a leaf for the values of a ledger and for an assignment of draws. -/
def Leaf.truth (ledger : Ledger) (draws : Leaf → Int) (x : Leaf) : Bool :=
  x.clause.isTrue (if x.clause.name = randomName then draws x else ledger.read x.clause.name)

/-- What the values of all members make of a rule: of no members, `all` makes true and `any` makes
false. -/
def Mode.combine : Mode → List Bool → Bool
  | .all, values => values.all id
  | .any, values => values.any id

/-- A member with the decisive value gives it to the rule. -/
theorem Mode.combine_eq (m : Mode) (values : List Bool) :
    m.combine values = (values.any (· == m.decisive) == m.decisive) := by
  cases m with
  | all =>
    show values.all id = (values.any (· == false) == false)
    induction values with
    | nil => rfl
    | cons b values ih => cases b <;> simp [ih]
  | any =>
    show values.any id = (values.any (· == true) == true)
    simp only [beq_true]
    rfl

/-- None of the first `n` values is the decisive one. -/
def Undecided (decisive : Bool) (values : List Bool) (n : Nat) : Prop :=
  ∀ b ∈ values.take n, b ≠ decisive

namespace Rule

/-! ## Leaves and values -/

/-- The leaves of clauses at the end of a path. -/
def leavesAt (path : List Nat) (cs : List Clause) : List Leaf := cs.mapIdx fun i c => ⟨path, i, c⟩

mutual

/-- The leaves of a rule at the end of a path: its own first, then those of each group. -/
def leaves (path : List Nat) : Rule → List Leaf
  | ⟨_, cs, gs⟩ => leavesAt path cs ++ leavesOf path 0 gs

/-- The leaves of the groups with the indices from `k` on. -/
def leavesOf (path : List Nat) (k : Nat) : List Rule → List Leaf
  | [] => []
  | g :: gs => leaves (path ++ [k]) g ++ leavesOf path (k + 1) gs

end

mutual

/-- The truth of a rule, made of the truth of all its leaves. -/
def value (truth : Leaf → Bool) (path : List Nat) : Rule → Bool
  | ⟨mode, cs, gs⟩ => mode.combine ((leavesAt path cs).map truth ++ valuesOf truth path 0 gs)

/-- The truth of the groups with the indices from `k` on. -/
def valuesOf (truth : Leaf → Bool) (path : List Nat) (k : Nat) : List Rule → List Bool
  | [] => []
  | g :: gs => value truth (path ++ [k]) g :: valuesOf truth path (k + 1) gs

end

/-- The truth of the members of a rule in order, its clauses before its groups. -/
def memberValues (truth : Leaf → Bool) (path : List Nat) (r : Rule) : List Bool :=
  (leavesAt path r.clauses).map truth ++ valuesOf truth path 0 r.groups

/-- A leaf that counts when members are considered in order: it belongs to a member, or is one, in
front of which no member of the rule has the decisive value; and likewise in that member. -/
inductive Reached (truth : Leaf → Bool) : List Nat → Rule → Leaf → Prop where
  | clause {path : List Nat} {r : Rule} {i : Nat} {c : Clause} (hc : r.clauses[i]? = some c)
      (hopen : Undecided r.mode.decisive (r.memberValues truth path) i) :
      Reached truth path r ⟨path, i, c⟩
  | group {path : List Nat} {r : Rule} {k : Nat} {g : Rule} {x : Leaf}
      (hg : r.groups[k]? = some g)
      (hopen : Undecided r.mode.decisive (r.memberValues truth path) (r.clauses.length + k))
      (hx : Reached truth (path ++ [k]) g x) : Reached truth path r x

/-! ## Every leaf once -/

theorem clause_leavesAt (path : List Nat) (cs : List Clause) :
    (leavesAt path cs).map (·.clause) = cs := by
  refine List.ext_getElem? fun i => ?_
  unfold leavesAt
  rw [List.getElem?_map, List.getElem?_mapIdx, Option.map_map]
  exact congrFun Option.map_id cs[i]?

mutual

/-- The leaves hold the clauses of the rule in order. -/
theorem clause_leaves (path : List Nat) : (r : Rule) →
    (r.leaves path).map (·.clause) = r.allClauses
  | ⟨_, cs, gs⟩ => by
    rw [leaves, allClauses, List.map_append, clause_leavesAt, clause_leavesOf path 0 gs]

theorem clause_leavesOf (path : List Nat) (k : Nat) : (gs : List Rule) →
    (leavesOf path k gs).map (·.clause) = allClausesOf gs
  | [] => rfl
  | g :: gs => by
    rw [leavesOf, allClausesOf, List.map_append, clause_leaves (path ++ [k]) g,
      clause_leavesOf path (k + 1) gs]

end

theorem path_of_mem_leavesAt {path : List Nat} {cs : List Clause} {x : Leaf}
    (h : x ∈ leavesAt path cs) : x.path = path := by
  obtain ⟨i, hi, rfl⟩ := List.mem_mapIdx.1 h
  rfl

mutual

/-- The path of a leaf goes on where the path of the rule ends. -/
theorem path_of_mem_leaves {path : List Nat} {x : Leaf} : (r : Rule) → x ∈ r.leaves path →
    path <+: x.path
  | ⟨_, cs, gs⟩, h => by
    rw [leaves, List.mem_append] at h
    rcases h with h | h
    · have hpath : x.path = path := path_of_mem_leavesAt h
      exact hpath ▸ List.prefix_rfl
    · obtain ⟨j, -, hprefix⟩ := path_of_mem_leavesOf 0 gs h
      exact (List.prefix_append path [j]).trans hprefix

theorem path_of_mem_leavesOf {path : List Nat} {x : Leaf} (k : Nat) : (gs : List Rule) →
    x ∈ leavesOf path k gs → ∃ j, k ≤ j ∧ path ++ [j] <+: x.path
  | [], h => absurd h List.not_mem_nil
  | g :: gs, h => by
    rw [leavesOf, List.mem_append] at h
    rcases h with h | h
    · exact ⟨k, Nat.le_refl k, path_of_mem_leaves g h⟩
    · obtain ⟨j, hj, hprefix⟩ := path_of_mem_leavesOf (k + 1) gs h
      exact ⟨j, by omega, hprefix⟩

end

theorem nodup_leavesAt (path : List Nat) (cs : List Clause) : (leavesAt path cs).Nodup := by
  rw [List.nodup_iff_getElem?_ne_getElem?]
  intro i j hij hj heq
  unfold leavesAt at heq hj
  rw [List.length_mapIdx] at hj
  rw [List.getElem?_mapIdx, List.getElem?_mapIdx, List.getElem?_eq_getElem hj,
    List.getElem?_eq_getElem (Nat.lt_trans hij hj)] at heq
  have hindex : i = j := congrArg Leaf.index (Option.some.inj heq)
  omega

mutual

/-- No leaf is listed twice. -/
theorem nodup_leaves (path : List Nat) : (r : Rule) → (r.leaves path).Nodup
  | ⟨_, cs, gs⟩ => by
    rw [leaves]
    refine List.nodup_append'.2 ⟨nodup_leavesAt path cs, nodup_leavesOf path 0 gs, ?_⟩
    intro x hx hgroup
    obtain ⟨j, -, hprefix⟩ := path_of_mem_leavesOf 0 gs hgroup
    have hlen := hprefix.length_le
    rw [path_of_mem_leavesAt hx, List.length_append, List.length_singleton] at hlen
    omega

theorem nodup_leavesOf (path : List Nat) (k : Nat) : (gs : List Rule) → (leavesOf path k gs).Nodup
  | [] => List.nodup_nil
  | g :: gs => by
    rw [leavesOf]
    refine List.nodup_append'.2 ⟨nodup_leaves (path ++ [k]) g, nodup_leavesOf path (k + 1) gs, ?_⟩
    intro x hx hlater
    obtain ⟨j, hj, hprefix⟩ := path_of_mem_leavesOf (k + 1) gs hlater
    -- Both groups lie on the path of the leaf, so they have the same index.
    have hpaths : path ++ [k] <+: path ++ [j] :=
      List.prefix_of_prefix_length_le (path_of_mem_leaves g hx) hprefix (by simp)
    have hsame : k = j := by simpa using hpaths
    omega

end

end Rule

/-! ## Undecided members -/

theorem undecided_zero (decisive : Bool) (values : List Bool) : Undecided decisive values 0 := by
  intro b hb
  exact absurd hb (by simp)

theorem undecided_succ {decisive b : Bool} {values : List Bool} {n : Nat} :
    Undecided decisive (b :: values) (n + 1) ↔ b ≠ decisive ∧ Undecided decisive values n := by
  unfold Undecided
  rw [List.take_succ_cons, List.forall_mem_cons]

theorem undecided_append_left {decisive : Bool} {values more : List Bool} {n : Nat}
    (h : n ≤ values.length) :
    Undecided decisive (values ++ more) n ↔ Undecided decisive values n := by
  unfold Undecided
  rw [List.take_append_of_le_length h]

theorem undecided_append_right {decisive : Bool} {values more : List Bool} {n : Nat} :
    Undecided decisive (values ++ more) (values.length + n)
      ↔ values.any (· == decisive) = false ∧ Undecided decisive more n := by
  unfold Undecided
  rw [List.take_length_add_append, List.forall_mem_append, List.any_eq_false]
  simp

end Proviso
