/-
  Assignments that settle a value.

  To replace a value, to cap it from above and to raise it from below are three ways of moving it
  into bounds no further than needed. Such assignments one after another come to one such move: each
  of them makes new bounds of those before it (`clamp_after`), so the clauses of a name clamp its
  value between the bounds that all of them leave (`evaluateAll_eq_clamp`). What has been clamped is
  within bounds (`within_clamp`) and a value within bounds stays where it is (`clamp_of_within`), so
  a rule of such assignments changes nothing when it is applied again (`apply_again`).
-/
import Proviso.Proofs.Applying

namespace Proviso

/-- The operators that move a value into bounds. -/
def Operator.settling : List Operator :=
  [.assign .replace, .assign .capAbove, .assign .capBelow]

/-! ## Bounds -/

/-- A lower and an upper bound, either of which may be missing; if both are there, they are in
order. -/
structure Bounds where
  lower : Option Int
  upper : Option Int
  ordered : ∀ a ∈ lower, ∀ b ∈ upper, a ≤ b

namespace Bounds

/-- The value is on the right side of each bound. -/
structure Within (b : Bounds) (x : Int) : Prop where
  lower : ∀ a ∈ b.lower, a ≤ x
  upper : ∀ a ∈ b.upper, x ≤ a

/-- The value within the bounds that is nearest to a value. -/
def clamp (b : Bounds) (x : Int) : Int :=
  let capped := b.upper.elim x (min x)
  b.lower.elim capped (max capped)

theorem within_clamp (b : Bounds) (x : Int) : b.Within (b.clamp x) := by
  obtain ⟨lower, upper, ordered⟩ := b
  unfold clamp
  constructor
  · rintro a ⟨⟩
    exact Int.le_max_right _ _
  · rintro a ⟨⟩
    cases lower with
    | none => exact Int.min_le_right _ _
    | some l =>
      have hle : l ≤ a := ordered l rfl a rfl
      exact Int.max_le.2 ⟨Int.min_le_right _ _, hle⟩

theorem clamp_of_within {b : Bounds} {x : Int} (h : b.Within x) : b.clamp x = x := by
  obtain ⟨lower, upper, _⟩ := b
  have hcapped : upper.elim x (min x) = x := by
    cases upper with
    | none => rfl
    | some u => exact Int.min_eq_left (h.upper u rfl)
  unfold clamp
  dsimp only
  rw [hcapped]
  cases lower with
  | none => rfl
  | some l => exact Int.max_eq_left (h.lower l rfl)

/-- To clamp a value again changes nothing. -/
theorem clamp_clamp (b : Bounds) (x : Int) : b.clamp (b.clamp x) = b.clamp x :=
  clamp_of_within (b.within_clamp x)

/-! ### The bounds that an assignment leaves -/

/-- No bounds. -/
def unbounded : Bounds := ⟨none, none, fun _ h => nomatch h⟩

/-- The bounds between which there is one value. -/
def only (a : Int) : Bounds where
  lower := some a
  upper := some a
  ordered := by
    rintro _ ⟨⟩ _ ⟨⟩
    exact Int.le_refl a

/-- The bounds of values that are capped from above. -/
def capAbove (b : Bounds) (a : Int) : Bounds where
  lower := b.lower.map (min · a)
  upper := some (b.upper.elim a (min · a))
  ordered := by
    obtain ⟨lower, upper, ordered⟩ := b
    cases lower with
    | none => exact fun _ h => nomatch h
    | some l =>
      rintro _ ⟨⟩ _ ⟨⟩
      cases upper with
      | none => exact Int.min_le_right l a
      | some u =>
        have hle : l ≤ u := ordered l rfl u rfl
        show min l a ≤ min u a
        omega

/-- The bounds of values that are raised from below. -/
def capBelow (b : Bounds) (a : Int) : Bounds where
  lower := some (b.lower.elim a (max · a))
  upper := b.upper.map (max · a)
  ordered := by
    obtain ⟨lower, upper, ordered⟩ := b
    cases upper with
    | none => exact fun _ _ _ h => nomatch h
    | some u =>
      rintro _ ⟨⟩ _ ⟨⟩
      cases lower with
      | none => exact Int.le_max_right u a
      | some l =>
        have hle : l ≤ u := ordered l rfl u rfl
        show max l a ≤ max u a
        omega

theorem clamp_unbounded (x : Int) : unbounded.clamp x = x := rfl

theorem clamp_only (a x : Int) : (only a).clamp x = a := by
  show max (min x a) a = a
  omega

theorem clamp_capAbove (b : Bounds) (a x : Int) : (b.capAbove a).clamp x = min (b.clamp x) a := by
  obtain ⟨lower, upper, -⟩ := b
  cases lower with
  | none =>
    cases upper with
    | none => rfl
    | some u =>
      show min x (min u a) = min (min x u) a
      omega
  | some l =>
    cases upper with
    | none =>
      show max (min x a) (min l a) = min (max x l) a
      omega
    | some u =>
      show max (min x (min u a)) (min l a) = min (max (min x u) l) a
      omega

theorem clamp_capBelow (b : Bounds) (a x : Int) : (b.capBelow a).clamp x = max (b.clamp x) a := by
  obtain ⟨lower, upper, -⟩ := b
  cases upper with
  | none =>
    cases lower with
    | none => rfl
    | some l =>
      show max x (max l a) = max (max x l) a
      omega
  | some u =>
    cases lower with
    | none =>
      show max (min x (max u a)) a = max (min x u) a
      omega
    | some l =>
      show max (min x (max u a)) (max l a) = max (max (min x u) l) a
      omega

/-- The bounds that a clause leaves of those before it. -/
def after (b : Bounds) (c : Clause) : Bounds :=
  match c.operator with
  | .assign .replace => only c.operand
  | .assign .capAbove => b.capAbove c.operand
  | .assign .capBelow => b.capBelow c.operand
  | _ => b

/-- A settling clause behind a clamp is a clamp between the bounds that it leaves. -/
theorem clamp_after {c : Clause} (h : c.operator ∈ Operator.settling) (b : Bounds) (x : Int) :
    (b.after c).clamp x = c.evaluate (b.clamp x) := by
  obtain ⟨name, op, operand⟩ := c
  simp only [Operator.settling, List.mem_cons, List.not_mem_nil, or_false] at h
  rcases h with rfl | rfl | rfl
  · exact clamp_only operand x
  · exact clamp_capAbove b operand x
  · exact clamp_capBelow b operand x

end Bounds

/-! ## Settling clauses one after another -/

namespace Clause

variable {cs : List Clause} (h : ∀ c ∈ cs, c.operator ∈ Operator.settling)
include h

theorem evaluateAll_clamp (b : Bounds) (x : Int) :
    evaluateAll cs (b.clamp x) = (cs.foldl Bounds.after b).clamp x := by
  induction cs generalizing b with
  | nil => rfl
  | cons c cs ih =>
    rw [List.forall_mem_cons] at h
    rw [List.foldl_cons, ← ih h.2, Bounds.clamp_after h.1]
    rfl

/-- Settling clauses clamp a value between the bounds that all of them leave. -/
theorem evaluateAll_eq_clamp (x : Int) :
    evaluateAll cs x = (cs.foldl Bounds.after .unbounded).clamp x := by
  rw [← evaluateAll_clamp h, Bounds.clamp_unbounded]

theorem evaluateAll_again (x : Int) : evaluateAll cs (evaluateAll cs x) = evaluateAll cs x := by
  rw [evaluateAll_eq_clamp h, evaluateAll_eq_clamp h, Bounds.clamp_clamp]

end Clause

/-! ## Rules -/

namespace Rule

/-- A rule that only replaces values, caps them and raises them does nothing more when it is applied
a second time. -/
theorem apply_again {r : Rule} (h : ∀ c ∈ r.allClauses, c.operator ∈ Operator.settling)
    (l : Ledger) : r.apply (r.apply l) = r.apply l := by
  refine Ledger.ext_get? fun name => ?_
  rw [get?_apply r (r.apply l)]
  split
  · rename_i hname
    have hnamed : ∀ c ∈ Clause.named name r.allClauses, c.operator ∈ Operator.settling :=
      fun c hc => h c (List.mem_filter.1 hc).1
    have hget := get?_apply r l name
    rw [if_pos hname] at hget
    have hread : (r.apply l).read name
        = Clause.evaluateAll (Clause.named name r.allClauses) (l.read name) := by
      rw [Ledger.read, hget, Option.getD_some]
    rw [hread, hget, Clause.evaluateAll_again hnamed]
  · rfl

/-- The value of `x` is capped twice and then raised above both caps, with clauses of `y` and of the
empty name between these; the caps come first again when the rule is applied again. -/
theorem apply_again_interleaved :
    let x : Text := ['x']
    let y : Text := ['y']
    let first : Rule := ⟨.any, [⟨x, .assign .capBelow, 7⟩, ⟨y, .assign .capAbove, -2⟩], []⟩
    let last : Rule := ⟨.all, [⟨x, .assign .capAbove, 5⟩, ⟨[], .assign .replace, 9⟩], [first]⟩
    let r : Rule := ⟨.any, [⟨x, .assign .capAbove, 3⟩, ⟨y, .assign .capBelow, -4⟩], [last]⟩
    let l : Ledger := .ofList [(x, 10), (['z'], 2)]
    (∀ c ∈ r.allClauses, c.operator ∈ Operator.settling) ∧ r.apply (r.apply l) = r.apply l ∧
      (r.apply l).get? x = some 7 ∧ (r.apply l).get? y = some (-2) ∧
      (r.apply l).get? [] = some 9 ∧ l.get? [] = none := by
  intro x y first last r l
  have hsettling : ∀ c ∈ r.allClauses, c.operator ∈ Operator.settling := by decide
  exact ⟨hsettling, apply_again hsettling l, by decide, by decide, by decide, by decide⟩

end Rule

end Proviso
