/-
  Drawing random numbers.

  A number of random bits is below the power of two for their count (`bits_lt`). A draw below a
  bound goes on until a try succeeds (`below_eq`): there are as many tries as states, and what has
  not come up by then never does, so a draw has no result only if no try ever succeeds
  (`below_eq_none_iff`). A result is below the bound (`lt_of_below`). For bounds of up to 32 bits a
  try succeeds if the leading bit of the next word is not set, which happens sooner or later
  whatever the state is, so these draws always have a result (`exists_below`). For larger bounds
  nothing is said about when a draw has one.
-/
import Mathlib.SetTheory.Cardinal.Finite
import Mathlib.Data.Fintype.Pi
import Proviso.Proofs.Duality
import Proviso.Proofs.Recurrence

namespace Proviso

namespace Twister

/-! ## Random bits -/

theorem shiftRight_lt {w a b : Nat} (h : w < 2 ^ (a + b)) : w >>> b < 2 ^ a := by
  rw [Nat.shiftRight_eq_div_pow]
  exact Nat.div_lt_of_lt_mul (by rwa [Nat.mul_comm, ← Nat.pow_add])

theorem bitsFrom_lt (full : Nat) {rest : Nat} (hrest : rest ≤ 32) (t : Twister) :
    (t.bitsFrom full rest).1 < 2 ^ (32 * full + rest) := by
  induction full generalizing t with
  | zero =>
    show t.word.1.toNat >>> (32 - rest) < _
    rw [Nat.mul_zero, Nat.zero_add]
    refine shiftRight_lt ?_
    rw [Nat.add_sub_cancel' hrest]
    exact t.word.1.toNat_lt
  | succ full ih =>
    show t.word.1.toNat + ((t.word.2.bitsFrom full rest).1 <<< 32) < _
    have hword := t.word.1.toNat_lt
    have hhigh := ih t.word.2
    have hpow : 2 ^ (32 * (full + 1) + rest) = 2 ^ (32 * full + rest) * 2 ^ 32 := by
      rw [← Nat.pow_add]
      congr 1
      omega
    rw [Nat.shiftLeft_eq, hpow]
    omega

/-- Random bits make a number below the power of two for their count. -/
theorem bits_lt (count : Nat) (t : Twister) : (t.bits count).1 < 2 ^ count := by
  unfold bits
  by_cases h : count = 0
  · rw [if_pos h]
    exact Nat.two_pow_pos count
  · rw [if_neg h]
    have hrest : count - 32 * ((count - 1) / 32) ≤ 32 := by omega
    have hall : 32 * ((count - 1) / 32) + (count - 32 * ((count - 1) / 32)) = count := by omega
    have hlt := bitsFrom_lt ((count - 1) / 32) hrest t
    rwa [hall] at hlt

/-- Up to 32 random bits are the leading ones of one word. -/
theorem bits_of_le {count : Nat} (hpos : 0 < count) (hle : count ≤ 32) (t : Twister) :
    t.bits count = (t.word.1.toNat >>> (32 - count), t.word.2) := by
  have hfull : (count - 1) / 32 = 0 := by omega
  rw [bits, if_neg (by omega), hfull]
  rfl

/-! ## Draws below a bound -/

/-- A try for a bound succeeds. -/
def Hits (bound : Nat) (t : Twister) : Prop := (t.bits (bitLength bound)).1 < bound

instance (bound : Nat) (t : Twister) : Decidable (Hits bound t) :=
  inferInstanceAs (Decidable (_ < _))

/-- The generator after a try for a bound. -/
def retry (bound : Nat) (t : Twister) : Twister := (t.bits (bitLength bound)).2

theorem belowWithin_succ (tries bound : Nat) (t : Twister) :
    t.belowWithin (tries + 1) bound
      = if Hits bound t then some (t.bits (bitLength bound))
        else (retry bound t).belowWithin tries bound := rfl

theorem belowWithin_eq_none_iff {tries bound : Nat} {t : Twister} :
    t.belowWithin tries bound = none ↔ ∀ k < tries, ¬ Hits bound ((retry bound)^[k] t) := by
  induction tries generalizing t with
  | zero => exact ⟨fun _ k hk => absurd hk (Nat.not_lt_zero k), fun _ => rfl⟩
  | succ tries ih =>
    rw [belowWithin_succ, Nat.forall_lt_succ_left']
    by_cases hhits : Hits bound t
    · rw [if_pos hhits]
      exact ⟨fun h => absurd h (by simp), fun h => absurd hhits h.1⟩
    · rw [if_neg hhits, ih]
      exact ⟨fun h => ⟨hhits, h⟩, fun h => h.2⟩

/-- A result comes after the same number of tries, however many more there might be. -/
theorem belowWithin_succ_of_eq_some {tries bound : Nat} {t : Twister} {r : Nat × Twister}
    (h : t.belowWithin tries bound = some r) : t.belowWithin (tries + 1) bound = some r := by
  induction tries generalizing t with
  | zero => exact absurd h (by simp [belowWithin])
  | succ tries ih =>
    rw [belowWithin_succ] at h ⊢
    by_cases hhits : Hits bound t
    · rwa [if_pos hhits] at h ⊢
    · rw [if_neg hhits] at h ⊢
      exact ih h

/-- A generator by its words and its index. -/
def code (t : Twister) : (Fin size → Fin UInt32.size) × Fin (size + 1) :=
  (fun i => t.words[i].toFin, t.next)

theorem code_injective : Function.Injective code := by
  rintro ⟨ws, next⟩ ⟨ws', next'⟩ h
  obtain ⟨hwords, rfl⟩ := Prod.mk.inj h
  have hws : ws = ws' := Vector.ext fun i hi => UInt32.toFin_inj.1 (congrFun hwords ⟨i, hi⟩)
  rw [hws]

instance : Finite Twister := Finite.of_injective code code_injective

theorem card_codes (words : Nat) : Nat.card ((Fin words → Fin UInt32.size) × Fin (words + 1))
    = Nat.pow 2 (32 * words) * (words + 1) := by
  have hsize : UInt32.size = 2 ^ 32 := rfl
  rw [Nat.card_prod, Nat.card_fun, Nat.card_fin, Nat.card_fin, Nat.card_fin, hsize, Nat.pow_eq,
    Nat.pow_mul]

theorem card_le_states : Nat.card Twister ≤ states := by
  unfold states
  exact (Nat.card_le_card_of_injective code code_injective).trans (Nat.le_of_eq (card_codes size))

/-- What is met at all when a function is applied again and again is met before all of a finite
type could have been gone through. -/
theorem exists_iterate_lt_card {α : Type} [Finite α] (f : α → α) (p : α → Prop) (a : α)
    (h : ∃ k, p (f^[k] a)) : ∃ k < Nat.card α, p (f^[k] a) := by
  classical
  -- Had something come up twice before it, it would have been met earlier by what lies between.
  have hne : ∀ i j, i < j → j ≤ Nat.find h → f^[i] a ≠ f^[j] a := by
    intro i j hij hj heq
    have hmet : p (f^[Nat.find h - j + i] a) := by
      rw [Function.iterate_add_apply, heq, ← Function.iterate_add_apply, Nat.sub_add_cancel hj]
      exact Nat.find_spec h
    exact Nat.find_min h (by omega) hmet
  have hinj : Function.Injective fun k : Fin (Nat.find h + 1) => f^[k] a := by
    intro i j hij
    rcases Nat.lt_trichotomy i j with hlt | heq | hgt
    · exact absurd hij (hne i j hlt (Nat.le_of_lt_succ j.isLt))
    · exact Fin.ext heq
    · exact absurd hij.symm (hne j i hgt (Nat.le_of_lt_succ i.isLt))
  have hcard := Nat.card_le_card_of_injective _ hinj
  rw [Nat.card_fin] at hcard
  exact ⟨Nat.find h, hcard, Nat.find_spec h⟩

/-- A draw has no result only if no try ever succeeds. -/
theorem below_eq_none_iff {bound : Nat} {t : Twister} :
    t.below bound = none ↔ ∀ k, ¬ Hits bound ((retry bound)^[k] t) := by
  rw [below, belowWithin_eq_none_iff]
  refine ⟨fun h k hk => ?_, fun h k _ => h k⟩
  obtain ⟨j, hj, hhits⟩ := exists_iterate_lt_card (retry bound) (Hits bound) t ⟨k, hk⟩
  exact h j (Nat.lt_of_lt_of_le hj card_le_states) hhits

/-- The tries go on until one succeeds: that they are counted makes no difference. -/
theorem below_eq (bound : Nat) (t : Twister) :
    t.below bound
      = if Hits bound t then some (t.bits (bitLength bound)) else (retry bound t).below bound := by
  have hmore : t.below bound = t.belowWithin (states + 1) bound := by
    cases h : t.below bound with
    | none => exact (belowWithin_eq_none_iff.2 fun k _ => below_eq_none_iff.1 h k).symm
    | some r => exact (belowWithin_succ_of_eq_some h).symm
  rw [hmore, belowWithin_succ]
  rfl

theorem lt_of_belowWithin {tries bound n : Nat} {t t' : Twister}
    (h : t.belowWithin tries bound = some (n, t')) : n < bound := by
  induction tries generalizing t with
  | zero => exact absurd h (by simp [belowWithin])
  | succ tries ih =>
    rw [belowWithin_succ] at h
    by_cases hhits : Hits bound t
    · rw [if_pos hhits] at h
      have hlt : (t.bits (bitLength bound)).1 < bound := hhits
      rwa [Option.some.inj h] at hlt
    · rw [if_neg hhits] at h
      exact ih h

/-- A draw that has a result has one below the bound. -/
theorem lt_of_below {bound n : Nat} {t t' : Twister} (h : t.below bound = some (n, t')) :
    n < bound := lt_of_belowWithin h

/-- Of the numbers with as many bits as a bound, those without the leading bit are below it. -/
theorem lt_of_lead {bound : Nat} (hpos : 0 < bound) (hle : bound < 2 ^ 32) {t : Twister}
    (h : lead (t.ahead 0) = false) : Hits bound t := by
  have hlog : bound.log2 < 32 := (Nat.log2_lt (by omega)).2 hle
  have hlength : bitLength bound = bound.log2 + 1 := if_neg (by omega)
  have hpow : 2 ^ bound.log2 ≤ bound := Nat.log2_self_le (by omega)
  have hword : t.word.1.toNat < 2 ^ 31 := by
    rw [(word_eq t).1]
    have hhalf := BitVec.msb_eq_false_iff_two_mul_lt.1 h
    have hcast : (temper (t.ahead 0)).toBitVec.toNat = (temper (t.ahead 0)).toNat := rfl
    omega
  rw [Hits, hlength, bits_of_le (by omega) (by omega)]
  refine Nat.lt_of_lt_of_le (shiftRight_lt ?_) hpow
  have hsum : bound.log2 + (32 - (bound.log2 + 1)) = 31 := by omega
  rwa [hsum]

/-- A draw below a bound of up to 32 bits has a result, whatever the state is. -/
theorem exists_below {bound : Nat} (hpos : 0 < bound) (hle : bound < 2 ^ 32) (t : Twister) :
    ∃ n t', t.below bound = some (n, t') ∧ n < bound := by
  obtain ⟨tries, hlead⟩ := exists_low (follows_ahead t)
  -- By induction on how far ahead the first word is of which the leading bit is not set.
  induction tries generalizing t with
  | zero =>
    have hhits := lt_of_lead hpos hle hlead
    exact ⟨_, _, by rw [below_eq, if_pos hhits], hhits⟩
  | succ tries ih =>
    by_cases hhits : Hits bound t
    · exact ⟨_, _, by rw [below_eq, if_pos hhits], hhits⟩
    · have hlog : bound.log2 < 32 := (Nat.log2_lt (by omega)).2 hle
      have hlength : bitLength bound = bound.log2 + 1 := if_neg (by omega)
      have hstate : retry bound t = t.word.2 := by
        rw [retry, hlength, bits_of_le (by omega) (by omega)]
      obtain ⟨n, t', hbelow, hn⟩ := ih t.word.2 (by rw [(word_eq t).2]; exact hlead)
      exact ⟨n, t', by rw [below_eq, if_neg hhits, hstate, hbelow], hn⟩

end Twister

/-! ## Clauses about a random number -/

/-- The clause that a random number is less than `n`. -/
def Clause.randomLess (n : Int) : Clause := ⟨randomName, .compare .less, n⟩

/-- A random number in a test is one from 0 to 99, so it is less than 100 and not less than 0. -/
theorem Clause.test_randomLess (ledger : Ledger) (n : Int) (t : Twister) :
    (100 ≤ n → ((randomLess n).test .twister ledger t).1 = true) ∧
      (n ≤ 0 → ((randomLess n).test .twister ledger t).1 = false) := by
  obtain ⟨value, t', hbelow, hlt⟩ :=
    @Twister.exists_below randomBound (by decide) (by decide) t
  have htest : ((randomLess n).test .twister ledger t).1 = decide ((value : Int) < n) := by
    have hdraw : Source.twister.draw randomBound t = ((value : Int), t') := by
      unfold Source.twister
      dsimp only
      rw [hbelow]
    have hname : (randomLess n).name = randomName := rfl
    unfold Clause.test
    rw [if_pos hname, hdraw]
    exact isTrue_compare _ _ _ _
  have hbound : value < 100 := hlt
  rw [htest]
  exact ⟨fun h => decide_eq_true (by omega), fun h => decide_eq_false (by omega)⟩

end Proviso
