/-
  The nearest number of the binary format.

  `Nearest q x` says what rounding is without saying how it is done: `x` is a finite number of the
  format, none of them is closer to `q`, and if another one is as close, the significand of `x` is
  even. A quotient is rounded by choosing the exponent at which its significand has all its bits,
  and rounding at that exponent to a natural number (`OnGrid`). What comes out is the nearest number
  and the only one (`OnGrid.nearest_iff`): a number of the format with a smaller exponent lies below
  all significands with all their bits, and the others are multiples of the same power of two. It is
  in the range of the format exactly if the quotient is less than half a unit above the largest
  number (`OnGrid.inRange_iff`).
-/
import Mathlib.Algebra.Order.Field.Basic
import Mathlib.Algebra.Order.Field.Power
import Mathlib.Data.Rat.Floor
import Mathlib.Tactic.Linarith
import Mathlib.Tactic.NormNum
import Mathlib.Tactic.Positivity
import Mathlib.Tactic.Ring
import Proviso.Numeral.Binary64

namespace Proviso.Binary64

/-! ## The numbers of the format -/

/-- The magnitude of `x` is `m · 2 ^ e`, and the format has this significand and this exponent. -/
structure Written (x : ℚ) (m : ℕ) (e : ℤ) : Prop where
  abs_eq : |x| = m * 2 ^ e
  lt_bound : m < 2 ^ 53
  le_exponent : -1074 ≤ e
  exponent_le : e ≤ 971

/-- The finite numbers of the format. -/
def Representable (x : ℚ) : Prop := ∃ m e, Written x m e

/-- The significand has all its bits, or the exponent is the smallest one. -/
def Full (m : ℕ) (e : ℤ) : Prop := 2 ^ 52 ≤ m ∨ e = -1074

/-- The significand of `x`, with all its bits if that is possible, is even. -/
def EvenSignificand (x : ℚ) : Prop := ∃ m e, Written x m e ∧ Full m e ∧ Even m

/-- `x` is the finite number of the format that is nearest to `q`, and of two equally near ones the
one with the even significand. -/
structure Nearest (q x : ℚ) : Prop where
  representable : Representable x
  closest : ∀ y, Representable y → |x - q| ≤ |y - q|
  tie : ∀ y, Representable y → y ≠ x → |y - q| = |x - q| → EvenSignificand x

theorem cast_pow_toNat (b : ℕ) {e : ℤ} (he : 0 ≤ e) : ((b ^ e.toNat : ℕ) : ℚ) = (b : ℚ) ^ e := by
  rw [Nat.cast_pow, ← zpow_natCast, Int.toNat_of_nonneg he]

theorem two_zpow_eq {e e' : ℤ} (h : e ≤ e') :
    (2 : ℚ) ^ e' = ((2 ^ (e' - e).toNat : ℕ) : ℚ) * 2 ^ e := by
  rw [cast_pow_toNat 2 (by omega), Nat.cast_ofNat, ← zpow_add₀ two_ne_zero]
  congr 1
  omega

/-- A number is written with a full significand in one way only. -/
theorem significand_unique {m m' : ℕ} {e e' : ℤ} (hm : m < 2 ^ 53) (hm' : m' < 2 ^ 53)
    (hfull : Full m e) (hfull' : Full m' e') (he : -1074 ≤ e) (he' : -1074 ≤ e')
    (h : (m : ℚ) * 2 ^ e = m' * 2 ^ e') : m = m' := by
  -- With the smaller exponent the significand would have to be at least twice as large.
  have hsame : ∀ {m m' : ℕ} {e e' : ℤ}, m < 2 ^ 53 → Full m' e' → -1074 ≤ e →
      (m : ℚ) * 2 ^ e = m' * 2 ^ e' → e ≤ e' → m = m' := by
    intro m m' e e' hm hfull' he h hle
    rw [two_zpow_eq hle, ← mul_assoc] at h
    have hmul : m = m' * 2 ^ (e' - e).toNat := by
      exact_mod_cast mul_right_cancel₀ (zpow_ne_zero e two_ne_zero) h
    rcases Nat.eq_zero_or_pos (e' - e).toNat with hzero | hpos
    · rw [hmul, hzero, Nat.pow_zero, Nat.mul_one]
    · have htwo : 2 ^ 1 ≤ 2 ^ (e' - e).toNat := Nat.pow_le_pow_right (by decide) hpos
      have hlarge : 2 ^ 52 ≤ m' := hfull'.resolve_right (by omega)
      have hdouble : 2 ^ 52 * 2 ^ 1 ≤ m := hmul ▸ Nat.mul_le_mul hlarge htwo
      omega
  rcases le_total e e' with hle | hle
  · exact hsame hm hfull' he h hle
  · exact (hsame hm' hfull he' h.symm hle).symm

/-- Seen from an exponent, a number of the format is a multiple of the power of two, or it has a
smaller exponent and lies below all full significands. -/
theorem Representable.multiple_or_lt {y : ℚ} (h : Representable y) (e : ℤ) :
    (∃ j : ℤ, y = j * 2 ^ e) ∨ (|y| < 2 ^ 52 * 2 ^ e ∧ -1074 < e) := by
  obtain ⟨n, e', hw⟩ := h
  rcases le_or_gt e e' with hle | hlt
  · refine Or.inl ?_
    have habs : |y| = ((n * 2 ^ (e' - e).toNat : ℕ) : ℤ) * 2 ^ e := by
      rw [hw.abs_eq, two_zpow_eq hle]
      push_cast
      ring
    rcases abs_choice y with hy | hy
    · exact ⟨_, hy ▸ habs⟩
    · refine ⟨-((n * 2 ^ (e' - e).toNat : ℕ) : ℤ), ?_⟩
      rw [Int.cast_neg, neg_mul, ← habs, hy, neg_neg]
  · refine Or.inr ⟨?_, lt_of_le_of_lt hw.le_exponent hlt⟩
    have hpos : (0 : ℚ) < 2 ^ e' := zpow_pos two_pos e'
    have hn : (n : ℚ) < 2 ^ 53 := by exact_mod_cast hw.lt_bound
    have hstep : (2 : ℚ) ^ 1 ≤ ((2 ^ (e - e').toNat : ℕ) : ℚ) := by
      exact_mod_cast Nat.pow_le_pow_right (by decide) (by omega : 1 ≤ (e - e').toNat)
    calc |y| = n * 2 ^ e' := hw.abs_eq
      _ < 2 ^ 53 * 2 ^ e' := mul_lt_mul_of_pos_right hn hpos
      _ = 2 ^ 52 * (2 ^ 1 * 2 ^ e') := by ring
      _ ≤ 2 ^ 52 * (((2 ^ (e - e').toNat : ℕ) : ℚ) * 2 ^ e') := by gcongr
      _ = 2 ^ 52 * 2 ^ e := by rw [← two_zpow_eq hlt.le]

/-! ## The range of the format -/

/-- Half a unit above the largest number. -/
theorem limit_eq : (2 : ℚ) ^ 1024 - 2 ^ 970 = (2 ^ 53 - 1 / 2) * 2 ^ (971 : ℤ) := by
  have hunit : (2 : ℚ) ^ (971 : ℤ) = 2 ^ 970 * 2 := by
    rw [zpow_ofNat]
    exact pow_succ 2 970
  have hbound : (2 : ℚ) ^ 1024 = 2 ^ 970 * 2 ^ 54 := pow_add 2 970 54
  rw [hunit, hbound]
  generalize (2 : ℚ) ^ 970 = p
  ring

/-- All numbers of the format are in its range. -/
theorem Representable.lt_limit {x : ℚ} (h : Representable x) : |x| < 2 ^ 1024 - 2 ^ 970 := by
  obtain ⟨m, e, hw⟩ := h
  have hm : (m : ℚ) + 1 ≤ 2 ^ 53 := by exact_mod_cast hw.lt_bound
  have hunit : (0 : ℚ) < 2 ^ (971 : ℤ) := zpow_pos two_pos 971
  rw [limit_eq, hw.abs_eq]
  calc (m : ℚ) * 2 ^ e ≤ m * 2 ^ (971 : ℤ) :=
        mul_le_mul_of_nonneg_left (zpow_le_zpow_right₀ one_le_two hw.exponent_le) m.cast_nonneg
    _ < (2 ^ 53 - 1 / 2) * 2 ^ (971 : ℤ) := mul_lt_mul_of_pos_right (by linarith) hunit

theorem Representable.nearest_self {x : ℚ} (h : Representable x) : Nearest x x := by
  refine ⟨h, fun y _ => ?_, fun y _ hne heq => ?_⟩
  · rw [sub_self, abs_zero]
    exact abs_nonneg _
  · rw [sub_self, abs_zero, abs_eq_zero, sub_eq_zero] at heq
    exact absurd heq hne

/-- The integers up to the bound of significands are numbers of the format. -/
theorem representable_intCast {i : ℤ} (h : |i| ≤ 2 ^ 53) : Representable i := by
  have habs : |(i : ℚ)| = i.natAbs := by rw [Nat.cast_natAbs, Int.cast_abs]
  have hle : i.natAbs ≤ 2 ^ 53 := by
    rw [Int.abs_eq_natAbs] at h
    exact_mod_cast h
  rcases hle.lt_or_eq with hlt | heq
  · exact ⟨i.natAbs, 0, by rw [habs, zpow_zero, mul_one], hlt, by norm_num, by norm_num⟩
  · refine ⟨2 ^ 52, 1, ?_, by norm_num, by norm_num, by norm_num⟩
    rw [habs, heq]
    norm_num

/-! ## Rounding to a natural number -/

/-- `m` is the natural number nearest to `r`, of two equally near ones the even one. -/
structure RoundsTo (r : ℚ) (m : ℕ) : Prop where
  near : |(m : ℚ) - r| ≤ 1 / 2
  even : |(m : ℚ) - r| = 1 / 2 → Even m

namespace RoundsTo

variable {r : ℚ} {m : ℕ} {k : ℤ}

theorem one_le_add (hk : k ≠ m) : 1 ≤ |(k : ℚ) - r| + |(m : ℚ) - r| := by
  have hint : (1 : ℤ) ≤ |k - m| := Int.one_le_abs (sub_ne_zero.2 hk)
  have hrat : (1 : ℚ) ≤ |(k : ℚ) - m| := by exact_mod_cast hint
  have htriangle := abs_sub_le (k : ℚ) r m
  rw [abs_sub_comm r m] at htriangle
  exact hrat.trans htriangle

theorem closest (h : RoundsTo r m) (k : ℤ) : |(m : ℚ) - r| ≤ |(k : ℚ) - r| := by
  by_cases hk : k = m
  · rw [hk, Int.cast_natCast]
  · have hone := one_le_add (r := r) hk
    have hnear := h.near
    linarith

/-- Another integer that is as near lies half a unit away on the other side. -/
theorem tie (h : RoundsTo r m) (hk : k ≠ m) (heq : |(k : ℚ) - r| = |(m : ℚ) - r|) :
    Even m ∧ (k = m + 1 ∧ r = m + 1 / 2 ∨ k = m - 1 ∧ r = m - 1 / 2) := by
  have hone := one_le_add (r := r) hk
  have hnear := h.near
  have hhalf : |(m : ℚ) - r| = 1 / 2 := by linarith
  refine ⟨h.even hhalf, ?_⟩
  have hcast : ∀ j : ℤ, (k : ℚ) = j → k = j := fun j hj => by exact_mod_cast hj
  rw [hhalf] at heq
  rcases (abs_eq (by norm_num)).1 hhalf with hm | hm
  · rcases (abs_eq (by norm_num)).1 heq with hj | hj
    · exact absurd (hcast m (by push_cast; linarith)) hk
    · exact Or.inr ⟨hcast _ (by push_cast; linarith), by linarith⟩
  · rcases (abs_eq (by norm_num)).1 heq with hj | hj
    · exact Or.inl ⟨hcast _ (by push_cast; linarith), by linarith⟩
    · exact absurd (hcast m (by push_cast; linarith)) hk

theorem below {n : ℕ} (hlow : 0 ≤ r) (h : r < 1 / 2) : RoundsTo (n + r) n := by
  have hdistance : |(n : ℚ) - (n + r)| = r := by
    rw [sub_add_cancel_left, abs_neg, abs_of_nonneg hlow]
  exact ⟨by linarith, fun heq => by linarith⟩

theorem above {n : ℕ} (h : 1 / 2 < r) (hhigh : r < 1) : RoundsTo (n + r) (n + 1) := by
  have hdistance : |((n + 1 : ℕ) : ℚ) - (n + r)| = 1 - r := by
    rw [Nat.cast_add, add_sub_add_left_eq_sub, Nat.cast_one, abs_of_nonneg (by linarith)]
  exact ⟨by linarith, fun heq => by linarith⟩

theorem middle {n : ℕ} (h : r = 1 / 2) : RoundsTo (n + r) (n + n % 2) := by
  refine ⟨?_, fun _ => ?_⟩
  · rw [h, Nat.cast_add, add_sub_add_left_eq_sub]
    rcases Nat.mod_two_eq_zero_or_one n with hn | hn <;> rw [hn] <;> norm_num [abs_le]
  · rw [Nat.even_iff]
    omega

end RoundsTo

/-! ## Rounding at an exponent -/

/-- At the exponent `e` the quotient `q` has a full significand, and it is rounded to `m` there. -/
structure OnGrid (q : ℚ) (m : ℕ) (e : ℤ) : Prop where
  rounds : RoundsTo (q / 2 ^ e) m
  le_exponent : -1074 ≤ e
  lt_bound : q / 2 ^ e < 2 ^ 53
  full : 2 ^ 52 ≤ q / 2 ^ e ∨ e = -1074

/-- `m · 2 ^ e` is in the range of the format. -/
def InRange (m : ℕ) (e : ℤ) : Prop := e < 971 ∨ e = 971 ∧ m < 2 ^ 53

namespace OnGrid

variable {q : ℚ} {m : ℕ} {e : ℤ}

theorem le_bound (h : OnGrid q m e) : m ≤ 2 ^ 53 := by
  have hnear := (abs_le.1 h.rounds.near).2
  have hlt : (m : ℚ) < (2 ^ 53 : ℕ) + 1 := by
    have := h.lt_bound
    push_cast
    linarith
  exact Nat.lt_succ_iff.1 (by exact_mod_cast hlt)

theorem full_significand (h : OnGrid q m e) : Full m e := by
  refine h.full.imp_left fun hfull => ?_
  have hnear := (abs_le.1 h.rounds.near).1
  have hlt : ((2 ^ 52 : ℕ) : ℚ) < m + 1 := by
    push_cast
    linarith
  exact Nat.lt_succ_iff.1 (by exact_mod_cast hlt)

/-- The rounded number is one of the format, and its significand is even if `m` is. A significand
that has grown by a bit is a power of two. -/
theorem written (h : OnGrid q m e) (hrange : InRange m e) :
    ∃ m' e', Written ((m : ℚ) * 2 ^ e) m' e' ∧ Full m' e' ∧ (Even m → Even m') := by
  have hle := h.le_exponent
  have habs : |(m : ℚ) * 2 ^ e| = m * 2 ^ e := abs_of_nonneg (by positivity)
  rcases lt_or_eq_of_le h.le_bound with hlt | heq
  · have he : e ≤ 971 := by
      rcases hrange with he | ⟨he, -⟩ <;> omega
    exact ⟨m, e, ⟨habs, hlt, hle, he⟩, h.full_significand, id⟩
  · have he : e < 971 := hrange.resolve_right fun hlast => by omega
    refine ⟨2 ^ 52, e + 1, ⟨?_, by norm_num, by omega, by omega⟩, Or.inl le_rfl, fun _ => ?_⟩
    · rw [habs, heq, zpow_add_one₀ two_ne_zero]
      push_cast
      ring
    · exact Nat.even_pow.2 ⟨even_two, by decide⟩

theorem representable (h : OnGrid q m e) (hrange : InRange m e) :
    Representable ((m : ℚ) * 2 ^ e) := by
  obtain ⟨m', e', hwritten, -, -⟩ := h.written hrange
  exact ⟨m', e', hwritten⟩

/-- Distances from `q`, measured in units of the power of two. -/
theorem abs_sub_eq (q a : ℚ) (e : ℤ) : |a * 2 ^ e - q| = |a - q / 2 ^ e| * 2 ^ e := by
  have hpos : (0 : ℚ) < 2 ^ e := zpow_pos two_pos e
  rw [← abs_of_pos hpos, ← abs_mul, abs_of_pos hpos, sub_mul, div_mul_cancel₀ _ hpos.ne']

/-- A number of the format is a multiple of the power of two, or it is farther away from `q` than
the rounded number. -/
theorem multiple_or_farther (h : OnGrid q m e) {y : ℚ} (hy : Representable y) :
    (∃ j : ℤ, y = j * 2 ^ e) ∨ |(m : ℚ) * 2 ^ e - q| < |y - q| := by
  have hpos : (0 : ℚ) < 2 ^ e := zpow_pos two_pos e
  refine (hy.multiple_or_lt e).imp_right fun ⟨hlt, he⟩ => ?_
  have hfull : 2 ^ 52 ≤ q / 2 ^ e := h.full.resolve_right he.ne'
  -- The least full significand lies between the number and `q`.
  have hleast : |(m : ℚ) - q / 2 ^ e| ≤ q / 2 ^ e - 2 ^ 52 := by
    have hclosest := h.rounds.closest (2 ^ 52)
    rwa [Int.cast_pow, Int.cast_ofNat, abs_sub_comm (2 ^ 52),
      abs_of_nonneg (sub_nonneg.2 hfull)] at hclosest
  calc |(m : ℚ) * 2 ^ e - q| = |(m : ℚ) - q / 2 ^ e| * 2 ^ e := abs_sub_eq q m e
    _ ≤ (q / 2 ^ e - 2 ^ 52) * 2 ^ e := mul_le_mul_of_nonneg_right hleast hpos.le
    _ = q - 2 ^ 52 * 2 ^ e := by rw [sub_mul, div_mul_cancel₀ _ hpos.ne']
    _ < q - |y| := sub_lt_sub_left hlt q
    _ ≤ q - y := sub_le_sub_left (le_abs_self y) q
    _ ≤ |y - q| := by rw [abs_sub_comm]; exact le_abs_self (q - y)

theorem nearest (h : OnGrid q m e) (hrange : InRange m e) : Nearest q (m * 2 ^ e) := by
  have hpos : (0 : ℚ) < 2 ^ e := zpow_pos two_pos e
  refine ⟨h.representable hrange, fun y hy => ?_, fun y hy hne heq => ?_⟩
  · rcases h.multiple_or_farther hy with ⟨j, rfl⟩ | hfar
    · rw [abs_sub_eq, abs_sub_eq]
      exact mul_le_mul_of_nonneg_right (h.rounds.closest j) hpos.le
    · exact hfar.le
  · rcases h.multiple_or_farther hy with ⟨j, rfl⟩ | hfar
    · rw [abs_sub_eq, abs_sub_eq] at heq
      have hj : j ≠ m := by
        rintro rfl
        exact hne (by rw [Int.cast_natCast])
      obtain ⟨m', e', hwritten, hfull, heven⟩ := h.written hrange
      have htie := h.rounds.tie hj (mul_right_cancel₀ hpos.ne' heq)
      exact ⟨m', e', hwritten, hfull, heven htie.1⟩
    · exact absurd heq hfar.ne'

/-- Another multiple that is as near is the neighbour on the other side of `q`. It has a full
significand at the same exponent, and an odd one. -/
theorem neighbour (h : OnGrid q m e) {j : ℤ} (hj : j ≠ m)
    (heq : |(j : ℚ) - q / 2 ^ e| = |(m : ℚ) - q / 2 ^ e|) :
    j.natAbs < 2 ^ 53 ∧ Full j.natAbs e ∧ ¬ Even j.natAbs := by
  obtain ⟨⟨a, ha⟩, hside⟩ := h.rounds.tie hj heq
  have hle := h.le_bound
  have hlow := h.full_significand
  have hodd : j.natAbs = m + 1 ∨ j.natAbs + 1 = m ∨ j.natAbs = 1 := by
    rcases hside with ⟨rfl, -⟩ | ⟨rfl, -⟩ <;> omega
  have hnot : ¬ Even j.natAbs := by
    rintro ⟨b, hb⟩
    omega
  rcases hside with ⟨rfl, hr⟩ | ⟨rfl, hr⟩
  · have hm : (m : ℚ) < (2 ^ 53 : ℕ) := by
      have hlt := h.lt_bound
      push_cast
      linarith
    have hm' : m < 2 ^ 53 := by exact_mod_cast hm
    exact ⟨by omega, hlow.imp_left fun hlow => by omega, hnot⟩
  · refine ⟨by omega, h.full.imp_left fun hfull => ?_, hnot⟩
    have hm : ((2 ^ 52 : ℕ) : ℚ) < m := by
      push_cast
      linarith
    have hm' : 2 ^ 52 < m := by exact_mod_cast hm
    omega

/-- No other number is nearest: it would be the neighbour, whose significand is odd. -/
theorem eq_of_nearest (h : OnGrid q m e) (hrange : InRange m e) {y : ℚ} (hy : Nearest q y) :
    y = m * 2 ^ e := by
  have hpos : (0 : ℚ) < 2 ^ e := zpow_pos two_pos e
  by_contra hne
  have heq : |y - q| = |(m : ℚ) * 2 ^ e - q| :=
    le_antisymm (hy.closest _ (h.representable hrange))
      ((h.nearest hrange).closest y hy.representable)
  obtain ⟨n, e', hwritten, hfull, heven⟩ :=
    hy.tie _ (h.representable hrange) (Ne.symm hne) heq.symm
  rcases h.multiple_or_farther hy.representable with ⟨j, rfl⟩ | hfar
  · have hj : j ≠ m := by
      rintro rfl
      exact hne (by rw [Int.cast_natCast])
    rw [abs_sub_eq, abs_sub_eq] at heq
    obtain ⟨hlt, hfull', hodd⟩ := h.neighbour hj (mul_right_cancel₀ hpos.ne' heq)
    have hsame : (j.natAbs : ℚ) * 2 ^ e = n * 2 ^ e' := by
      rw [← hwritten.abs_eq, abs_mul, abs_of_pos hpos, Nat.cast_natAbs, Int.cast_abs]
    have hsignificand := significand_unique hlt hwritten.lt_bound hfull' hfull h.le_exponent
      hwritten.le_exponent hsame
    exact hodd (hsignificand ▸ heven)
  · exact absurd heq hfar.ne'

theorem nearest_iff (h : OnGrid q m e) (hrange : InRange m e) {y : ℚ} :
    Nearest q y ↔ y = m * 2 ^ e := by
  constructor
  · exact h.eq_of_nearest hrange
  · rintro rfl
    exact h.nearest hrange

/-- The significand does not grow by a bit if the quotient is less than half a unit below the bound.
In the middle it is rounded up, because the largest significand is odd. -/
theorem lt_bound_iff (h : OnGrid q m e) : m < 2 ^ 53 ↔ q / 2 ^ e < 2 ^ 53 - 1 / 2 := by
  have hnear := abs_le.1 h.rounds.near
  constructor
  · intro hm
    have hm' : (m : ℚ) + 1 ≤ 2 ^ 53 := by exact_mod_cast hm
    refine lt_of_le_of_ne (by linarith) fun hmiddle => ?_
    have hlast : (m : ℚ) = (2 ^ 53 - 1 : ℕ) := by
      push_cast
      linarith
    have hhalf : |(m : ℚ) - q / 2 ^ e| = 1 / 2 := by
      rw [hmiddle, abs_sub_comm, abs_of_nonneg (by linarith)]
      linarith
    have hodd : m = 2 ^ 53 - 1 := by exact_mod_cast hlast
    have heven := h.rounds.even hhalf
    rw [hodd] at heven
    exact absurd heven (by decide)
  · intro hbelow
    have hm : (m : ℚ) < (2 ^ 53 : ℕ) := by
      push_cast
      linarith
    exact_mod_cast hm

/-- The rounded number is in the range of the format if `q` is less than half a unit above the
largest number. -/
theorem inRange_iff (h : OnGrid q m e) : InRange m e ↔ q < 2 ^ 1024 - 2 ^ 970 := by
  have hpos : (0 : ℚ) < 2 ^ e := zpow_pos two_pos e
  have hunit : (0 : ℚ) < 2 ^ (971 : ℤ) := zpow_pos two_pos 971
  have hle := h.le_exponent
  rw [limit_eq]
  rcases lt_trichotomy e 971 with he | rfl | he
  · refine iff_of_true (Or.inl he) ?_
    have hlt := h.lt_bound
    rw [div_lt_iff₀ hpos] at hlt
    have hpow : (2 : ℚ) ^ e * 2 ≤ 2 ^ (971 : ℤ) := by
      rw [← zpow_add_one₀ two_ne_zero]
      exact zpow_le_zpow_right₀ one_le_two he
    generalize (2 : ℚ) ^ (971 : ℤ) = unit at *
    linarith
  · rw [← div_lt_iff₀ hpos, ← h.lt_bound_iff]
    exact ⟨fun hrange => (hrange.resolve_left (lt_irrefl _)).2, fun hm => Or.inr ⟨rfl, hm⟩⟩
  · have hfull : 2 ^ 52 ≤ q / 2 ^ e := h.full.resolve_right (by omega)
    rw [le_div_iff₀ hpos] at hfull
    have hpow : 2 ^ (971 : ℤ) * (2 : ℚ) ≤ 2 ^ e := by
      rw [← zpow_add_one₀ two_ne_zero]
      exact zpow_le_zpow_right₀ one_le_two (by omega)
    refine iff_of_false (fun hrange => ?_) (not_lt.2 ?_)
    · rcases hrange with hrange | ⟨hrange, -⟩ <;> omega
    · generalize (2 : ℚ) ^ (971 : ℤ) = unit at *
      linarith

end OnGrid

/-! ## Signs -/

/-- A rational number by sign and magnitude. -/
def withSign (negative : Bool) (q : ℚ) : ℚ := if negative then -q else q

theorem signed_eq_withSign (negative : Bool) (m : ℕ) :
    ((signed negative m : ℤ) : ℚ) = withSign negative m := by
  cases negative
  · exact Int.cast_natCast m
  · exact Int.cast_neg _

theorem withSign_mul (negative : Bool) (q r : ℚ) :
    withSign negative (q * r) = withSign negative q * r := by
  cases negative
  · rfl
  · exact (neg_mul q r).symm

theorem withSign_withSign (negative : Bool) (q : ℚ) :
    withSign negative (withSign negative q) = q := by
  cases negative
  · rfl
  · exact neg_neg q

theorem abs_withSign (negative : Bool) {q : ℚ} (h : 0 ≤ q) : |withSign negative q| = q := by
  cases negative
  · exact abs_of_nonneg h
  · exact (abs_neg q).trans (abs_of_nonneg h)

theorem abs_withSign_sub (negative : Bool) (x q : ℚ) :
    |withSign negative x - withSign negative q| = |x - q| := by
  cases negative
  · rfl
  · show |-x - -q| = |x - q|
    rw [neg_sub_neg, abs_sub_comm]

theorem written_withSign (negative : Bool) {x : ℚ} {m : ℕ} {e : ℤ} :
    Written (withSign negative x) m e ↔ Written x m e := by
  have habs : |withSign negative x| = |x| := by
    cases negative
    · rfl
    · exact abs_neg x
  constructor
  · exact fun h => ⟨habs ▸ h.abs_eq, h.lt_bound, h.le_exponent, h.exponent_le⟩
  · exact fun h => ⟨habs ▸ h.abs_eq, h.lt_bound, h.le_exponent, h.exponent_le⟩

/-- Rounding to the nearest number is symmetric. -/
theorem Nearest.withSign {q x : ℚ} (negative : Bool) (h : Nearest q x) :
    Nearest (withSign negative q) (withSign negative x) := by
  have hback : ∀ y, Representable y → Representable (Binary64.withSign negative y) :=
    fun y ⟨m, e, hy⟩ => ⟨m, e, (written_withSign negative).2 hy⟩
  have hdistance : ∀ y, |y - Binary64.withSign negative q| = |Binary64.withSign negative y - q| :=
    fun y => by rw [← abs_withSign_sub negative, withSign_withSign]
  refine ⟨hback x h.representable, fun y hy => ?_, fun y hy hne heq => ?_⟩
  · rw [abs_withSign_sub, hdistance]
    exact h.closest _ (hback y hy)
  · rw [abs_withSign_sub, hdistance] at heq
    have hne' : Binary64.withSign negative y ≠ x := by
      rintro rfl
      exact hne (withSign_withSign negative y).symm
    obtain ⟨m, e, hwritten, hfull, heven⟩ := h.tie _ (hback y hy) hne' heq
    exact ⟨m, e, (written_withSign negative).2 hwritten, hfull, heven⟩

theorem nearest_withSign {q x : ℚ} (negative : Bool) :
    Nearest (withSign negative q) x ↔ Nearest q (withSign negative x) := by
  constructor
  · intro h
    have hback := h.withSign negative
    rwa [withSign_withSign] at hback
  · intro h
    have hback := h.withSign negative
    rwa [withSign_withSign] at hback

end Proviso.Binary64
