/-
  Tests stop early and lose nothing.

  `survey` goes through the leaves of a rule in the order of a test, with any way of looking at one
  leaf; a test is the survey that looks at a leaf by testing its clause (`test_eq_survey`), and a
  survey that also notes down each leaf it looks at tells which these are. `Explored` is what a
  survey comes to: the leaves it looked at, in order, and that the answer and the choice of these
  leaves are those of the full evaluation, whatever the truth of all other leaves is. It is proved
  for one leaf and kept by looking further (`Explored.orElse`), and so holds of every survey
  (`explored_survey`). `test_short_circuit` says it of tests, with the numbers they draw.
-/
import Proviso.Proofs.Leaves

namespace Proviso

variable {σ : Type}

/-! ## Surveys -/

/-- Looks further only if the first answer is no. -/
def orElse (first : Bool × σ) (next : σ → Bool × σ) : Bool × σ :=
  if first.1 then first else next first.2

/-- Asks of an answer whether it is the decisive one. -/
def settles (decisive : Bool) (found : Bool × σ) : Bool × σ := (found.1 == decisive, found.2)

namespace Rule

/-- Whether one of the leaves is found to have the truth value `decisive`; the leaves behind the
first that has it are not looked at. -/
def surveyLeaves (look : Leaf → σ → Bool × σ) (decisive : Bool) : List Leaf → σ → Bool × σ
  | [], s => (false, s)
  | x :: xs, s => orElse (settles decisive (look x s)) fun s => surveyLeaves look decisive xs s

mutual

/-- The truth of a rule at the end of a path. Its members are looked at in order; the rule has the
decisive value if one of them has it, and the other value if none has. -/
def survey (look : Leaf → σ → Bool × σ) (path : List Nat) : Rule → σ → Bool × σ
  | ⟨mode, cs, gs⟩, s =>
    settles mode.decisive <|
      orElse (surveyLeaves look mode.decisive (leavesAt path cs) s) fun s =>
        surveyGroups look mode.decisive path 0 gs s

/-- Whether one of the groups with the indices from `k` on is found to have the truth value
`decisive`; the groups behind the first that has it are not looked at. -/
def surveyGroups (look : Leaf → σ → Bool × σ) (decisive : Bool) (path : List Nat) (k : Nat) :
    List Rule → σ → Bool × σ
  | [], s => (false, s)
  | g :: gs, s =>
    orElse (settles decisive (survey look (path ++ [k]) g s)) fun s =>
      surveyGroups look decisive path (k + 1) gs s

end

end Rule

/-- Looks at a leaf by testing its clause. -/
def Leaf.test (source : Source σ) (ledger : Ledger) (x : Leaf) (s : σ) : Bool × σ :=
  x.clause.test source ledger s

namespace Rule

theorem clausesDecide_eq (source : Source σ) (ledger : Ledger) (decisive : Bool)
    (path : List Nat) (cs : List Clause) (s : σ) :
    clausesDecide source ledger decisive cs s
      = surveyLeaves (Leaf.test source ledger) decisive (leavesAt path cs) s := by
  have hany : ∀ xs : List Leaf, clausesDecide source ledger decisive (xs.map (·.clause)) s
      = surveyLeaves (Leaf.test source ledger) decisive xs s := by
    intro xs
    induction xs generalizing s with
    | nil => rfl
    | cons x xs ih =>
      rw [List.map_cons, clausesDecide, surveyLeaves, orElse, settles, Leaf.test]
      by_cases h : (x.clause.test source ledger s).1 = decisive
      · simp [h]
      · simp [h, ih]
  rw [← hany, clause_leavesAt]

mutual

/-- A test is a survey. -/
theorem test_eq_survey (source : Source σ) (ledger : Ledger) (path : List Nat) :
    (r : Rule) → (s : σ) → r.test source ledger s = r.survey (Leaf.test source ledger) path s
  | ⟨mode, cs, gs⟩, s => by
    have hgroups := groupsDecide_eq source ledger mode.decisive path 0 gs
    rw [test, survey, ← clausesDecide_eq, orElse, settles]
    split
    · rename_i t ht
      rw [ht]
      exact Prod.ext (by cases mode <;> rfl) rfl
    · rename_i t ht
      rw [ht, if_neg (by simp), ← hgroups]
      split
      · rename_i u hu
        rw [hu]
        exact Prod.ext (by cases mode <;> rfl) rfl
      · rename_i u hu
        rw [hu]
        exact Prod.ext (by cases mode <;> rfl) rfl

theorem groupsDecide_eq (source : Source σ) (ledger : Ledger) (decisive : Bool) (path : List Nat)
    (k : Nat) : (gs : List Rule) → (s : σ) →
      groupsDecide source ledger decisive gs s
        = surveyGroups (Leaf.test source ledger) decisive path k gs s
  | [], _ => rfl
  | g :: gs, s => by
    rw [groupsDecide, surveyGroups, ← test_eq_survey source ledger (path ++ [k]) g s, orElse,
      settles]
    by_cases h : (g.test source ledger s).1 = decisive
    · simp [h]
    · simp [h, groupsDecide_eq source ledger decisive path (k + 1) gs]

end

/-! ## Noting down what is looked at -/

/-- Looks at a leaf and notes it down behind the leaves noted before. -/
def noting (look : Leaf → σ → Bool × σ) (x : Leaf) (s : σ × List Leaf) : Bool × σ × List Leaf :=
  ((look x s.1).1, (look x s.1).2, s.2 ++ [x])

end Rule

/-- What a survey finds, without what it has noted. -/
def withoutNotes (found : Bool × σ × List Leaf) : Bool × σ := (found.1, found.2.1)

theorem withoutNotes_orElse {first : Bool × σ × List Leaf}
    {next : σ × List Leaf → Bool × σ × List Leaf} {next' : σ → Bool × σ}
    (h : ∀ s, withoutNotes (next s) = next' s.1) :
    withoutNotes (orElse first next) = orElse (withoutNotes first) next' := by
  unfold orElse
  by_cases hfirst : first.1 = true
  · simp [withoutNotes, hfirst]
  · have hfound : (withoutNotes first).1 = false := by simpa [withoutNotes] using hfirst
    rw [if_neg hfirst, hfound, h]
    rfl

namespace Rule

theorem withoutNotes_surveyLeaves (look : Leaf → σ → Bool × σ) (decisive : Bool) (xs : List Leaf)
    (s : σ × List Leaf) :
    withoutNotes (surveyLeaves (noting look) decisive xs s)
      = surveyLeaves look decisive xs s.1 := by
  induction xs generalizing s with
  | nil => rfl
  | cons x xs ih =>
    rw [surveyLeaves, surveyLeaves, withoutNotes_orElse ih]
    rfl

mutual

/-- Notes do not change a survey. -/
theorem withoutNotes_survey (look : Leaf → σ → Bool × σ) (path : List Nat) : (r : Rule) →
    (s : σ × List Leaf) → withoutNotes (r.survey (noting look) path s) = r.survey look path s.1
  | ⟨mode, cs, gs⟩, s => by
    have hgroups := withoutNotes_surveyGroups look mode.decisive path 0 gs
    rw [survey, survey, ← withoutNotes_surveyLeaves, ← withoutNotes_orElse hgroups]
    rfl

theorem withoutNotes_surveyGroups (look : Leaf → σ → Bool × σ) (decisive : Bool) (path : List Nat)
    (k : Nat) : (gs : List Rule) → (s : σ × List Leaf) →
      withoutNotes (surveyGroups (noting look) decisive path k gs s)
        = surveyGroups look decisive path k gs s.1
  | [], _ => rfl
  | g :: gs, s => by
    have hgroups := withoutNotes_surveyGroups look decisive path (k + 1) gs
    rw [surveyGroups, surveyGroups, ← withoutNotes_survey look (path ++ [k]) g s,
      withoutNotes_orElse hgroups]
    rfl

end

end Rule

/-! ## What a survey comes to -/

/-- Looks at leaves one after another, whatever is found. -/
def lookAll (look : Leaf → σ → Bool × σ) : List Leaf → σ → List Bool × σ
  | [], s => ([], s)
  | x :: xs, s =>
    let found := look x s
    let rest := lookAll look xs found.2
    (found.1 :: rest.1, rest.2)

theorem length_lookAll (look : Leaf → σ → Bool × σ) (xs : List Leaf) (s : σ) :
    (lookAll look xs s).1.length = xs.length := by
  induction xs generalizing s with
  | nil => rfl
  | cons x xs ih => rw [lookAll, List.length_cons, List.length_cons, ih]

theorem lookAll_append (look : Leaf → σ → Bool × σ) (xs ys : List Leaf) (s : σ) :
    lookAll look (xs ++ ys) s
      = ((lookAll look xs s).1 ++ (lookAll look ys (lookAll look xs s).2).1,
          (lookAll look ys (lookAll look xs s).2).2) := by
  induction xs generalizing s with
  | nil => rfl
  | cons x xs ih =>
    rw [List.cons_append, lookAll, ih]
    rfl

/-- From the state `s` the leaves `seen` among `all` were looked at, and no others, to come to
`found`. Whatever the truth of all leaves is, as long as it is what was found of these, the answer
is `answer`, and these are the leaves that are reached. -/
structure Explored (look : Leaf → σ → Bool × σ) (s : σ) (found : Bool × σ) (all : List Leaf)
    (answer : (Leaf → Bool) → Bool) (reached : (Leaf → Bool) → Leaf → Prop)
    (seen : List Leaf) : Prop where
  state : found.2 = (lookAll look seen s).2
  sublist : seen.Sublist all
  agrees : ∀ truth : Leaf → Bool, seen.map truth = (lookAll look seen s).1 →
    found.1 = answer truth ∧ ∀ x, x ∈ seen ↔ reached truth x

namespace Explored

variable {look : Leaf → σ → Bool × σ} {s : σ} {all more : List Leaf}

theorem nothing (s : σ) :
    Explored look s (false, s) [] (fun _ => false) (fun _ _ => False) [] :=
  ⟨rfl, List.Sublist.refl _, fun _ _ => ⟨rfl, fun x => by simp⟩⟩

theorem leaf (look : Leaf → σ → Bool × σ) (x : Leaf) (s : σ) :
    Explored look s (look x s) [x] (fun truth => truth x) (fun _ y => y = x) [x] := by
  refine ⟨rfl, List.Sublist.refl _, fun truth h => ⟨?_, fun y => List.mem_singleton⟩⟩
  exact ((List.cons.inj h).1).symm

theorem settles {found : Bool × σ} {answer : (Leaf → Bool) → Bool}
    {reached : (Leaf → Bool) → Leaf → Prop} {seen : List Leaf}
    (h : Explored look s found all answer reached seen) (decisive : Bool) :
    Explored look s (settles decisive found) all (fun truth => answer truth == decisive) reached
      seen := by
  refine ⟨h.state, h.sublist, fun truth hfound => ?_⟩
  obtain ⟨hanswer, hreached⟩ := h.agrees truth hfound
  exact ⟨congrArg (· == decisive) hanswer, hreached⟩

/-- Other words for the answer and for what is reached. -/
theorem congr {found : Bool × σ} {answer answer' : (Leaf → Bool) → Bool}
    {reached reached' : (Leaf → Bool) → Leaf → Prop} {seen : List Leaf}
    (h : Explored look s found all answer reached seen) (hanswer : ∀ t, answer t = answer' t)
    (hreached : ∀ t x, reached t x ↔ reached' t x) :
    Explored look s found all answer' reached' seen := by
  refine ⟨h.state, h.sublist, fun truth hfound => ?_⟩
  obtain ⟨ha, hr⟩ := h.agrees truth hfound
  exact ⟨ha.trans (hanswer truth), fun x => (hr x).trans (hreached truth x)⟩

/-- Looking further if the first answer is no: what comes second is reached only then. -/
theorem orElse {first : Bool × σ} {next : σ → Bool × σ} {answer answer' : (Leaf → Bool) → Bool}
    {reached reached' : (Leaf → Bool) → Leaf → Prop} {seen : List Leaf}
    (h : Explored look s first all answer reached seen)
    (hnext : ∀ s, ∃ seen', Explored look s (next s) more answer' reached' seen') :
    ∃ seen', Explored look s (orElse first next) (all ++ more)
      (fun truth => answer truth || answer' truth)
      (fun truth x => reached truth x ∨ answer truth = false ∧ reached' truth x) seen' := by
  obtain ⟨b, t⟩ := first
  cases b with
  | true =>
    refine ⟨seen, h.state, h.sublist.trans (List.sublist_append_left all more), ?_⟩
    intro truth hfound
    obtain ⟨hanswer, hreached⟩ := h.agrees truth hfound
    have hyes : answer truth = true := hanswer.symm
    refine ⟨by simp [Proviso.orElse, hyes], fun x => ?_⟩
    simp [hreached x, hyes]
  | false =>
    obtain ⟨seen', h'⟩ := hnext t
    have ht : (lookAll look seen s).2 = t := h.state.symm
    have hboth := lookAll_append look seen seen' s
    rw [ht] at hboth
    refine ⟨seen ++ seen', ?_, h.sublist.append h'.sublist, ?_⟩
    · rw [hboth]
      exact h'.state
    · intro truth hfound
      rw [hboth, List.map_append] at hfound
      have hlength : (seen.map truth).length = (lookAll look seen s).1.length := by
        rw [List.length_map, length_lookAll]
      obtain ⟨hfirst, hsecond⟩ := List.append_inj hfound hlength
      obtain ⟨hanswer, hreached⟩ := h.agrees truth hfirst
      obtain ⟨hanswer', hreached'⟩ := h'.agrees truth hsecond
      have hno : answer truth = false := hanswer.symm
      refine ⟨?_, fun x => ?_⟩
      · rw [hno, Bool.false_or]
        exact hanswer'
      · rw [List.mem_append, hreached x, hreached' x]
        simp [hno]

end Explored

namespace Rule

/-- The first of some things counts, and if it does not decide, so do those of the others that are
undecided among themselves. -/
theorem exists_undecided_cons {α : Type} {decisive b : Bool} {values : List Bool} {a : α}
    {as : List α} {P : Nat → α → Prop} :
    (∃ i x, (a :: as)[i]? = some x ∧ Undecided decisive (b :: values) i ∧ P i x)
      ↔ P 0 a ∨
        (b == decisive) = false ∧
          ∃ i x, as[i]? = some x ∧ Undecided decisive values i ∧ P (i + 1) x := by
  constructor
  · rintro ⟨i, x, hx, hopen, hP⟩
    cases i with
    | zero =>
      rw [Option.some.inj hx]
      exact Or.inl hP
    | succ i =>
      obtain ⟨hb, hrest⟩ := undecided_succ.1 hopen
      exact Or.inr ⟨beq_eq_false_iff_ne.2 hb, i, x, hx, hrest, hP⟩
  · rintro (hP | ⟨hb, i, x, hx, hrest, hP⟩)
    · exact ⟨0, a, rfl, undecided_zero _ _, hP⟩
    · exact ⟨i + 1, x, hx, undecided_succ.2 ⟨beq_eq_false_iff_ne.1 hb, hrest⟩, hP⟩

/-- The members of a rule that leaves are reached through: the clauses up to the first decisive one,
and the groups up to the first decisive one if no clause is decisive. -/
theorem reached_iff {truth : Leaf → Bool} {path : List Nat} {mode : Mode} {cs : List Clause}
    {gs : List Rule} {x : Leaf} :
    Reached truth path ⟨mode, cs, gs⟩ x
      ↔ (∃ i y, (leavesAt path cs)[i]? = some y ∧
            Undecided mode.decisive ((leavesAt path cs).map truth) i ∧ x = y) ∨
        ((leavesAt path cs).map truth).any (· == mode.decisive) = false ∧
          ∃ k g, gs[k]? = some g ∧ Undecided mode.decisive (valuesOf truth path 0 gs) k ∧
            Reached truth (path ++ [0 + k]) g x := by
  have hlength : ((leavesAt path cs).map truth).length = cs.length := by
    rw [List.length_map, leavesAt, List.length_mapIdx]
  have hleaf : ∀ i, (leavesAt path cs)[i]? = (cs[i]?).map (Leaf.mk path i) := fun i =>
    List.getElem?_mapIdx
  have hclause : ∀ {i : Nat} {c : Clause}, cs[i]? = some c → i ≤ cs.length := fun hc =>
    Nat.le_of_lt (List.getElem?_eq_some_iff.1 hc).1
  constructor
  · intro h
    cases h with
    | clause hc hopen =>
      refine Or.inl ⟨_, _, by rw [hleaf, show cs[_]? = _ from hc]; rfl, ?_, rfl⟩
      exact (undecided_append_left (hlength ▸ hclause hc)).1 hopen
    | group hg hopen hx =>
      rename_i k g
      have hopen' : Undecided mode.decisive
          ((leavesAt path cs).map truth ++ valuesOf truth path 0 gs)
          (((leavesAt path cs).map truth).length + k) := hlength ▸ hopen
      obtain ⟨hnone, hrest⟩ := undecided_append_right.1 hopen'
      exact Or.inr ⟨hnone, k, g, hg, hrest, (Nat.zero_add k).symm ▸ hx⟩
  · rintro (⟨i, y, hy, hopen, rfl⟩ | ⟨hnone, k, g, hg, hopen, hx⟩)
    · rw [hleaf, Option.map_eq_some_iff] at hy
      obtain ⟨c, hc, rfl⟩ := hy
      exact .clause hc ((undecided_append_left (hlength ▸ hclause hc)).2 hopen)
    · have hopen' := undecided_append_right.2 ⟨hnone, hopen⟩
      rw [hlength] at hopen'
      exact .group hg hopen' ((Nat.zero_add k) ▸ hx)

variable (look : Leaf → σ → Bool × σ)

/-- A leaf beside others is looked at if no leaf in front of it is decisive. -/
theorem explored_surveyLeaves (decisive : Bool) (xs : List Leaf) (s : σ) :
    ∃ seen, Explored look s (surveyLeaves look decisive xs s) xs
      (fun truth => (xs.map truth).any (· == decisive))
      (fun truth y => ∃ i x, xs[i]? = some x ∧ Undecided decisive (xs.map truth) i ∧ y = x)
      seen := by
  induction xs generalizing s with
  | nil => exact ⟨[], (Explored.nothing s).congr (fun _ => rfl) (fun _ x => by simp)⟩
  | cons x xs ih =>
    obtain ⟨seen, h⟩ := ((Explored.leaf look x s).settles decisive).orElse ih
    refine ⟨seen, h.congr (fun _ => rfl) fun truth y => ?_⟩
    rw [List.map_cons, exists_undecided_cons]

mutual

/-- A survey of a rule finds its value and looks at the leaves that are reached. -/
theorem explored_survey (path : List Nat) : (r : Rule) → (s : σ) →
    ∃ seen, Explored look s (r.survey look path s) (r.leaves path)
      (fun truth => r.value truth path) (fun truth x => Reached truth path r x) seen
  | ⟨mode, cs, gs⟩, s => by
    obtain ⟨_, hclauses⟩ := explored_surveyLeaves look mode.decisive (leavesAt path cs) s
    obtain ⟨seen, h⟩ := hclauses.orElse (explored_surveyGroups mode.decisive path 0 gs)
    refine ⟨seen, (h.settles mode.decisive).congr (fun truth => ?_) fun _ _ => reached_iff.symm⟩
    rw [value, Mode.combine_eq, List.any_append]

theorem explored_surveyGroups (decisive : Bool) (path : List Nat) (k : Nat) : (gs : List Rule) →
    (s : σ) → ∃ seen, Explored look s (surveyGroups look decisive path k gs s) (leavesOf path k gs)
      (fun truth => (valuesOf truth path k gs).any (· == decisive))
      (fun truth x => ∃ j g, gs[j]? = some g ∧
        Undecided decisive (valuesOf truth path k gs) j ∧ Reached truth (path ++ [k + j]) g x)
      seen
  | [], s => ⟨[], (Explored.nothing s).congr (fun _ => rfl) (fun _ x => by simp)⟩
  | g :: gs, s => by
    obtain ⟨_, hgroup⟩ := explored_survey (path ++ [k]) g s
    obtain ⟨seen, h⟩ :=
      (hgroup.settles decisive).orElse (explored_surveyGroups decisive path (k + 1) gs)
    refine ⟨seen, h.congr (fun _ => rfl) fun truth x => ?_⟩
    have hnext : ∀ j, k + 1 + j = k + (j + 1) := fun j => by omega
    simp only [hnext]
    rw [valuesOf, exists_undecided_cons]
    rfl

end

end Rule

/-! ## Tests and what they draw -/

/-- Draws so many numbers below one bound, one after another. -/
def Source.draws (source : Source σ) (bound : Nat) : Nat → σ → List Int × σ
  | 0, s => ([], s)
  | n + 1, s =>
    let first := source.draw bound s
    let rest := source.draws bound n first.2
    (first.1 :: rest.1, rest.2)

theorem Source.length_draws (source : Source σ) (bound n : Nat) (s : σ) :
    (source.draws bound n s).1.length = n := by
  induction n generalizing s with
  | zero => rfl
  | succ n ih => rw [draws, List.length_cons, ih]

section Tests

variable (source : Source σ) (ledger : Ledger)

theorem Leaf.test_of_isRandom {x : Leaf} (h : x.isRandom = true) (s : σ) :
    x.test source ledger s
      = (x.clause.isTrue (source.draw randomBound s).1, (source.draw randomBound s).2) := by
  rw [Leaf.test, Clause.test, if_pos (of_decide_eq_true h)]

theorem Leaf.test_of_not_isRandom {x : Leaf} (h : x.isRandom = false) (s : σ) :
    x.test source ledger s = (x.clause.isTrue (ledger.read x.clause.name), s) := by
  rw [Leaf.test, Clause.test, if_neg (of_decide_eq_false h)]

/-- Testing leaves one after another draws once for each random one. -/
theorem state_lookAll_test (xs : List Leaf) (s : σ) :
    (lookAll (Leaf.test source ledger) xs s).2
      = (source.draws randomBound (xs.filter Leaf.isRandom).length s).2 := by
  induction xs generalizing s with
  | nil => rfl
  | cons x xs ih =>
    rw [lookAll]
    cases h : x.isRandom with
    | true =>
      rw [List.filter_cons_of_pos h, List.length_cons, Source.draws, ← ih]
      simp only [x.test_of_isRandom source ledger h s]
    | false =>
      rw [List.filter_cons_of_neg (by simp [h]), ← ih]
      simp only [x.test_of_not_isRandom source ledger h s]

/-- The truth found by testing leaves one after another is that for every assignment of draws that
gives the random ones, in order, what was drawn. -/
theorem truth_lookAll_test {draws : Leaf → Int} {xs : List Leaf} {s : σ}
    (h : (xs.filter Leaf.isRandom).map draws
      = (source.draws randomBound (xs.filter Leaf.isRandom).length s).1) :
    xs.map (Leaf.truth ledger draws) = (lookAll (Leaf.test source ledger) xs s).1 := by
  induction xs generalizing s with
  | nil => rfl
  | cons x xs ih =>
    rw [List.filter_cons] at h
    rw [List.map_cons, lookAll]
    cases hx : x.isRandom with
    | true =>
      rw [hx, if_pos rfl, List.map_cons, List.length_cons, Source.draws] at h
      obtain ⟨hfirst, hrest⟩ := List.cons.inj h
      have htruth : x.truth ledger draws = x.clause.isTrue (draws x) := by
        rw [Leaf.truth, if_pos (of_decide_eq_true hx)]
      simp only [x.test_of_isRandom source ledger hx s]
      rw [htruth, hfirst, ih hrest]
    | false =>
      rw [hx, if_neg (by simp)] at h
      have htruth : x.truth ledger draws = x.clause.isTrue (ledger.read x.clause.name) := by
        rw [Leaf.truth, if_neg (of_decide_eq_false hx)]
      simp only [x.test_of_not_isRandom source ledger hx s]
      rw [htruth, ih h]

end Tests

/-- Values for different things can be any values. -/
theorem exists_map_eq {α β : Type} [DecidableEq α] [Inhabited β] {xs : List α} (h : xs.Nodup)
    {ys : List β} (hlength : xs.length = ys.length) : ∃ f : α → β, xs.map f = ys := by
  induction xs generalizing ys with
  | nil =>
    cases ys with
    | nil => exact ⟨default, rfl⟩
    | cons y ys => exact absurd hlength (by simp)
  | cons x xs ih =>
    cases ys with
    | nil => exact absurd hlength (by simp)
    | cons y ys =>
      obtain ⟨hx, hxs⟩ := List.nodup_cons.1 h
      obtain ⟨f, hf⟩ := ih hxs (by simpa using hlength)
      refine ⟨fun a => if a = x then y else f a, ?_⟩
      rw [List.map_cons, if_pos rfl, ← hf]
      refine congrArg (y :: ·) (List.map_congr_left fun a ha => if_neg ?_)
      rintro rfl
      exact hx ha

namespace Rule

theorem lookAll_noting (look : Leaf → σ → Bool × σ) (xs : List Leaf) (s : σ)
    (notes : List Leaf) :
    lookAll (noting look) xs (s, notes)
      = ((lookAll look xs s).1, (lookAll look xs s).2, notes ++ xs) := by
  induction xs generalizing s notes with
  | nil => rw [lookAll, lookAll, List.append_nil]
  | cons x xs ih =>
    have hrest := ih (look x s).2 (notes ++ [x])
    rw [List.append_assoc, List.singleton_append] at hrest
    simp only [lookAll, noting, hrest]

/-- The test of a rule together with the leaves that it looks at, in order. -/
def watched (source : Source σ) (ledger : Ledger) (r : Rule) (s : σ) : Bool × σ × List Leaf :=
  r.survey (noting (Leaf.test source ledger)) [] (s, [])

theorem withoutNotes_watched (source : Source σ) (ledger : Ledger) (r : Rule) (s : σ) :
    withoutNotes (r.watched source ledger s) = r.test source ledger s := by
  rw [watched, withoutNotes_survey, test_eq_survey source ledger []]

/-- What a test comes to, in terms of the leaves that it is seen to look at. -/
theorem explored_watched (source : Source σ) (ledger : Ledger) (r : Rule) (s : σ) :
    Explored (Leaf.test source ledger) s (r.test source ledger s) (r.leaves [])
      (fun truth => r.value truth []) (fun truth x => Reached truth [] r x)
      (r.watched source ledger s).2.2 := by
  obtain ⟨seen, h⟩ := explored_survey (noting (Leaf.test source ledger)) [] r (s, [])
  have hnotes := lookAll_noting (Leaf.test source ledger) seen s []
  have hstate : (r.watched source ledger s).2
      = ((lookAll (Leaf.test source ledger) seen s).2, seen) := by
    rw [watched, h.state, hnotes]
    rfl
  have htest := withoutNotes_watched source ledger r s
  rw [hstate]
  refine ⟨?_, h.sublist, fun truth hfound => ?_⟩
  · rw [← htest, withoutNotes, hstate]
  · rw [← htest]
    exact h.agrees truth (hfound.trans (congrArg Prod.fst hnotes).symm)

/-- A test of a rule looks at some of its leaves, in order and each once, and draws for the random
ones among them and for nothing else, below 100 each time. For every assignment of draws that gives
these leaves, in order, what was drawn, and any numbers to the leaves that were not looked at, the
answer is the value of the whole rule, and the leaves looked at are those that are reached. There is
such an assignment. -/
theorem test_short_circuit (source : Source σ) (ledger : Ledger) (r : Rule) (s : σ) :
    let seen := (r.watched source ledger s).2.2
    let random := seen.filter Leaf.isRandom
    let drawn := source.draws 100 random.length s
    withoutNotes (r.watched source ledger s) = r.test source ledger s ∧
    (r.test source ledger s).2 = drawn.2 ∧
    seen.Sublist (r.leaves []) ∧ (r.leaves []).Nodup ∧
    (r.leaves []).map (·.clause) = r.allClauses ∧
    (∃ draws : Leaf → Int, random.map draws = drawn.1) ∧
    ∀ draws : Leaf → Int, random.map draws = drawn.1 →
      (r.test source ledger s).1 = r.value (Leaf.truth ledger draws) [] ∧
      ∀ x, x ∈ seen ↔ Reached (Leaf.truth ledger draws) [] r x := by
  intro seen random drawn
  have h := explored_watched source ledger r s
  have hnodup : random.Nodup := (h.sublist.nodup (nodup_leaves [] r)).filter _
  refine ⟨withoutNotes_watched source ledger r s, ?_, h.sublist, nodup_leaves [] r,
    clause_leaves [] r, exists_map_eq hnodup (source.length_draws _ _ s).symm,
    fun draws hdraws => h.agrees _ (truth_lookAll_test source ledger hdraws)⟩
  rw [h.state]
  exact state_lookAll_test source ledger seen s

/-- The first group is left after the second of its three draws, so the draw of the last group is
the fourth; what the third leaf of the first group would have drawn does not matter. -/
theorem test_short_circuit_four_draws :
    let random : Int → Clause := fun i => ⟨randomName, .compare .less, i⟩
    let x : Clause := ⟨['x'], .compare .atLeast, 2⟩
    let r : Rule := ⟨.all, [random 50, x],
      [⟨.any, [random 10, random 90, random 5], []⟩, ⟨.all, [], [⟨.any, [random 1], []⟩]⟩]⟩
    let ledger : Ledger := .ofList [(['x'], 2)]
    let draws : Leaf → Int := fun y =>
      if y.path = [] then 20 else if y.path = [1, 0] then 99 else [30, 40, 7].getD y.index 0
    let seen : List Leaf := [⟨[], 0, random 50⟩, ⟨[], 1, x⟩, ⟨[0], 0, random 10⟩,
      ⟨[0], 1, random 90⟩, ⟨[1, 0], 0, random 1⟩]
    (r.watched .script ledger [20, 30, 40, 99]).2.2 = seen ∧
      (seen.filter Leaf.isRandom).map draws
        = (Source.script.draws 100 4 [20, 30, 40, 99]).1 ∧
      r.test .script ledger [20, 30, 40, 99] = (false, []) ∧
      r.value (Leaf.truth ledger draws) [] = false ∧
      Reached (Leaf.truth ledger draws) [] r ⟨[1, 0], 0, random 1⟩ ∧
      ¬ Reached (Leaf.truth ledger draws) [] r ⟨[0], 2, random 5⟩ := by
  intro random x r ledger draws seen
  have hseen : (r.watched .script ledger [20, 30, 40, 99]).2.2 = seen := by decide
  have hdraws : (seen.filter Leaf.isRandom).map draws
      = (Source.script.draws 100 4 [20, 30, 40, 99]).1 := by decide
  have htest : r.test .script ledger [20, 30, 40, 99] = (false, []) := by decide
  obtain ⟨hvalue, hreached⟩ :=
    (test_short_circuit .script ledger r [20, 30, 40, 99]).2.2.2.2.2.2 draws
      (by rw [hseen]; exact hdraws)
  rw [htest] at hvalue
  rw [hseen] at hreached
  exact ⟨hseen, hdraws, htest, hvalue.symm, (hreached _).1 (by decide),
    fun h => absurd ((hreached _).2 h) (by decide)⟩

end Rule

end Proviso
