/-
  Rounding to the binary format.

  A decimal number of any size is rounded to the nearest number of the format, and to infinity
  exactly if it is half a unit above the largest number or more (`rounded_ofDecimal`). Within the
  bounds between which the power of ten is computed, the exponent is chosen by comparing binary
  logarithms (`exponentFor_eq`) and the quotient rounded there (`onGrid_scaled`); outside of them
  the number of digits alone settles it. The integer part of the result is that of the nearest
  number, which for numbers of the format is the number itself
  (`Rounded.trunc?_of_representable`).
-/
import Proviso.Proofs.Decimal
import Proviso.Proofs.Nearest

namespace Proviso.Binary64

/-! ## Rounding a quotient -/

/-- The remainder is compared with half of the denominator, the fraction it makes with one half. -/
theorem roundsTo_roundHalfEven (num : ℕ) {den : ℕ} (hden : 0 < den) :
    RoundsTo ((num : ℚ) / den) (roundHalfEven num den) := by
  have hpos : (0 : ℚ) < den := Nat.cast_pos.2 hden
  have hsplit : (num : ℚ) / den = (num / den : ℕ) + ((num % den : ℕ) : ℚ) / den := by
    have hnum : (num : ℚ) = den * (num / den : ℕ) + (num % den : ℕ) := by
      exact_mod_cast (Nat.div_add_mod num den).symm
    rw [div_eq_iff hpos.ne', add_mul, div_mul_cancel₀ _ hpos.ne', mul_comm _ (den : ℚ)]
    exact hnum
  have hlow : (0 : ℚ) ≤ ((num % den : ℕ) : ℚ) / den := by positivity
  have hhigh : ((num % den : ℕ) : ℚ) / den < 1 := by
    rw [div_lt_one hpos]
    exact_mod_cast Nat.mod_lt num hden
  have hbelow : ((num % den : ℕ) : ℚ) / den < 1 / 2 ↔ 2 * (num % den) < den := by
    rw [div_lt_div_iff₀ hpos two_pos, one_mul, mul_comm]
    exact_mod_cast Iff.rfl
  have habove : 1 / 2 < ((num % den : ℕ) : ℚ) / den ↔ den < 2 * (num % den) := by
    rw [div_lt_div_iff₀ two_pos hpos, one_mul, mul_comm]
    exact_mod_cast Iff.rfl
  unfold roundHalfEven
  dsimp only
  rw [hsplit]
  split
  · rename_i h
    exact .below hlow (hbelow.2 h)
  · rename_i hnot
    split
    · rename_i h
      exact .above (habove.2 h) hhigh
    · rename_i hnot'
      exact .middle (le_antisymm (not_lt.1 (mt habove.1 hnot')) (not_lt.1 (mt hbelow.1 hnot)))

theorem roundsTo_scaled (num : ℕ) {den : ℕ} (hden : 0 < den) (e : ℤ) :
    RoundsTo ((num : ℚ) / den / 2 ^ e) (scaled num den e) := by
  unfold scaled
  by_cases he : 0 ≤ e
  · have hround := roundsTo_roundHalfEven num (Nat.mul_pos hden (Nat.two_pow_pos e.toNat))
    rw [if_pos he, Nat.shiftLeft_eq]
    rwa [Nat.cast_mul, cast_pow_toNat 2 he, Nat.cast_ofNat, ← div_div] at hround
  · have hround := roundsTo_roundHalfEven (num * 2 ^ (-e).toNat) hden
    have hneg : 0 ≤ -e := by omega
    rw [if_neg he, Nat.shiftLeft_eq]
    rwa [Nat.cast_mul, cast_pow_toNat 2 hneg, Nat.cast_ofNat, zpow_neg, ← div_eq_mul_inv,
      div_right_comm] at hround

theorem two_zpow_log2 {n : ℕ} (hn : 0 < n) :
    (2 : ℚ) ^ (n.log2 : ℤ) ≤ n ∧ (n : ℚ) < 2 ^ ((n.log2 : ℤ) + 1) := by
  have hlow : ((2 ^ n.log2 : ℕ) : ℚ) ≤ n := Nat.cast_le.2 (Nat.log2_self_le hn.ne')
  have hhigh : (n : ℚ) < ((2 ^ (n.log2 + 1) : ℕ) : ℚ) := Nat.cast_lt.2 Nat.lt_log2_self
  rw [Nat.cast_pow, Nat.cast_ofNat, ← zpow_natCast] at hlow hhigh
  exact ⟨hlow, by exact_mod_cast hhigh⟩

/-- The comparison by which the exponent is chosen. -/
theorem two_zpow_le_div_iff (num : ℕ) {den : ℕ} (hden : 0 < den) (l : ℤ) :
    (if 0 ≤ l then den <<< l.toNat ≤ num else den ≤ num <<< (-l).toNat) ↔
      (2 : ℚ) ^ l ≤ (num : ℚ) / den := by
  have hpos : (0 : ℚ) < den := Nat.cast_pos.2 hden
  rw [le_div_iff₀ hpos]
  split
  · rename_i hl
    rw [Nat.shiftLeft_eq, ← Nat.cast_le (α := ℚ), Nat.cast_mul, cast_pow_toNat 2 hl,
      Nat.cast_ofNat, mul_comm]
  · rename_i hl
    have hneg : 0 ≤ -l := by omega
    rw [Nat.shiftLeft_eq, ← Nat.cast_le (α := ℚ), Nat.cast_mul, cast_pow_toNat 2 hneg,
      Nat.cast_ofNat, zpow_neg, ← div_eq_mul_inv, le_div_iff₀ (zpow_pos two_pos l), mul_comm]

/-- At the exponent that is chosen the quotient has a full significand, as far as the format has
that exponent. -/
theorem exponentFor_eq {num den : ℕ} (hnum : 0 < num) (hden : 0 < den) :
    ∃ k : ℤ, exponentFor num den = max (-1074) k ∧
      2 ^ 52 * 2 ^ k ≤ (num : ℚ) / den ∧ (num : ℚ) / den < 2 ^ 53 * 2 ^ k := by
  have hpos : (0 : ℚ) < den := Nat.cast_pos.2 hden
  obtain ⟨hnumlow, hnumhigh⟩ := two_zpow_log2 hnum
  obtain ⟨hdenlow, hdenhigh⟩ := two_zpow_log2 hden
  have hshift : ∀ (n : ℕ) (k : ℤ), (2 : ℚ) ^ n * 2 ^ k = 2 ^ (n + k) := fun n k => by
    rw [zpow_add₀ two_ne_zero, zpow_natCast]
  unfold exponentFor
  dsimp only
  rw [if_congr (two_zpow_le_div_iff num hden _) rfl rfl]
  split
  · rename_i hreaches
    refine ⟨_, rfl, ?_, ?_⟩
    · rw [hshift]
      refine le_of_eq_of_le ?_ hreaches
      congr 1
      push_cast
      ring
    · rw [hshift, div_lt_iff₀ hpos]
      calc (num : ℚ) < 2 ^ ((num.log2 : ℤ) + 1) := hnumhigh
        _ = 2 ^ ((num.log2 : ℤ) - den.log2 + 1) * 2 ^ (den.log2 : ℤ) := by
            rw [← zpow_add₀ two_ne_zero]
            congr 1
            ring
        _ ≤ 2 ^ ((num.log2 : ℤ) - den.log2 + 1) * den := by gcongr
        _ = 2 ^ (((53 : ℕ) : ℤ) + ((num.log2 : ℤ) - den.log2 - 52)) * den := by
            congr 2
            push_cast
            ring
  · rename_i hreaches
    refine ⟨_, rfl, ?_, ?_⟩
    · rw [hshift, le_div_iff₀ hpos]
      calc (2 : ℚ) ^ (((52 : ℕ) : ℤ) + ((num.log2 : ℤ) - den.log2 - 53)) * den
          ≤ 2 ^ (((52 : ℕ) : ℤ) + ((num.log2 : ℤ) - den.log2 - 53)) * 2 ^ ((den.log2 : ℤ) + 1) := by
            gcongr
        _ = 2 ^ (num.log2 : ℤ) := by
            rw [← zpow_add₀ two_ne_zero]
            congr 1
            push_cast
            ring
        _ ≤ num := hnumlow
    · rw [hshift]
      refine lt_of_lt_of_eq (not_le.1 hreaches) ?_
      congr 1
      push_cast
      ring

theorem onGrid_scaled {num den : ℕ} (hnum : 0 < num) (hden : 0 < den) :
    OnGrid ((num : ℚ) / den) (scaled num den (exponentFor num den)) (exponentFor num den) := by
  obtain ⟨k, hexponent, hlow, hhigh⟩ := exponentFor_eq hnum hden
  have hpos : (0 : ℚ) < 2 ^ exponentFor num den := zpow_pos two_pos _
  refine ⟨roundsTo_scaled num hden _, ?_, ?_, ?_⟩
  · rw [hexponent]
    exact le_max_left _ _
  · rw [div_lt_iff₀ hpos]
    refine hhigh.trans_le (mul_le_mul_of_nonneg_left ?_ (by positivity))
    rw [hexponent]
    exact zpow_le_zpow_right₀ one_le_two (le_max_right _ _)
  · rw [le_div_iff₀ hpos]
    rcases le_total (-1074) k with hk | hk
    · rw [max_eq_right hk] at hexponent
      exact Or.inl (hexponent ▸ hlow)
    · rw [max_eq_left hk] at hexponent
      exact Or.inr hexponent

/-! ## What numbers are rounded to -/

/-- What `q` is rounded to: the nearest finite number, or an infinite one if the magnitude of `q` is
half a unit above the largest number or more. -/
inductive Rounded (q : ℚ) : Binary64 → Prop where
  | finite {negative : Bool} {m : ℕ} {e : ℤ} (hlt : |q| < 2 ^ 1024 - 2 ^ 970)
      (hnearest : ∀ y, Nearest q y ↔ y = (signed negative m : ℤ) * 2 ^ e) :
      Rounded q (.finite negative m e)
  | infinite {negative : Bool} (hle : 2 ^ 1024 - 2 ^ 970 ≤ |q|) : Rounded q (.infinite negative)

namespace OnGrid

variable {q : ℚ} {m : ℕ} {e : ℤ}

theorem rounded_finite (h : OnGrid q m e) (hq : 0 ≤ q) (hrange : InRange m e) (negative : Bool)
    {m' : ℕ} {e' : ℤ} (hsame : (m' : ℚ) * 2 ^ e' = m * 2 ^ e) :
    Rounded (withSign negative q) (.finite negative m' e') := by
  refine .finite ?_ fun y => ?_
  · rw [abs_withSign negative hq]
    exact h.inRange_iff.1 hrange
  · rw [nearest_withSign, h.nearest_iff hrange, ← hsame, signed_eq_withSign, ← withSign_mul]
    constructor
    · intro hy
      rw [← hy, withSign_withSign]
    · rintro rfl
      exact withSign_withSign negative _

theorem rounded_infinite (h : OnGrid q m e) (hq : 0 ≤ q) (hrange : ¬ InRange m e)
    (negative : Bool) : Rounded (withSign negative q) (.infinite negative) := by
  refine .infinite ?_
  rw [abs_withSign negative hq]
  exact not_lt.1 fun hlt => hrange (h.inRange_iff.2 hlt)

end OnGrid

theorem rounded_nearest (negative : Bool) {num den : ℕ} (hnum : 0 < num) (hden : 0 < den) :
    Rounded (withSign negative ((num : ℚ) / den)) (nearest negative num den) := by
  have hgrid := onGrid_scaled hnum hden
  have hq : (0 : ℚ) ≤ (num : ℚ) / den := by positivity
  unfold nearest
  dsimp only
  generalize exponentFor num den = e at *
  generalize scaled num den e = m at *
  have hle : m ≤ 2 ^ 53 := hgrid.le_bound
  have hbound : significandBound = 2 ^ 53 := rfl
  have hmax : maxExponent = 971 := rfl
  by_cases hm : m = significandBound
  · rw [if_pos hm]
    dsimp only
    split
    · exact hgrid.rounded_infinite hq (fun hrange => by rcases hrange with h | h <;> omega) negative
    · refine hgrid.rounded_finite hq (Or.inl (by omega)) negative ?_
      have hcarry : (significandBound : ℚ) = leastFull * 2 := by
        exact_mod_cast (by decide : significandBound = leastFull * 2)
      rw [hm, hcarry, zpow_add_one₀ two_ne_zero, mul_assoc, mul_comm (2 : ℚ)]
  · rw [if_neg hm]
    dsimp only
    split
    · exact hgrid.rounded_infinite hq (fun hrange => by rcases hrange with h | h <;> omega) negative
    · have hrange : InRange m e := by
        rcases lt_or_eq_of_le (not_lt.1 ‹_›) with h | h
        · exact Or.inl h
        · exact Or.inr ⟨h, by omega⟩
      exact hgrid.rounded_finite hq hrange negative rfl

/-- Below half of the smallest number everything is rounded to zero. -/
theorem rounded_zero (negative : Bool) {q : ℚ} (hq : 0 ≤ q) (hsmall : q < 2 ^ (-1075 : ℤ)) :
    Rounded (withSign negative q) (zero negative) := by
  have hpos : (0 : ℚ) < 2 ^ (-1074 : ℤ) := zpow_pos two_pos _
  have hhalf : q / 2 ^ (-1074 : ℤ) < 1 / 2 := by
    have hstep : (2 : ℚ) ^ (-1075 : ℤ) * 2 = 2 ^ (-1074 : ℤ) := (zpow_add_one₀ two_ne_zero _).symm
    rw [div_lt_iff₀ hpos, ← hstep]
    generalize (2 : ℚ) ^ (-1075 : ℤ) = half at *
    linarith
  have hdistance : |((0 : ℕ) : ℚ) - q / 2 ^ (-1074 : ℤ)| = q / 2 ^ (-1074 : ℤ) := by
    rw [Nat.cast_zero, zero_sub, abs_neg, abs_of_nonneg (div_nonneg hq hpos.le)]
  have hgrid : OnGrid q 0 (-1074) :=
    ⟨⟨by rw [hdistance]; exact hhalf.le, fun _ => Even.zero⟩, le_rfl,
      hhalf.trans (by norm_num), Or.inr rfl⟩
  exact hgrid.rounded_finite hq (Or.inl (by decide)) negative rfl

theorem lt_ten_zpow_length (n : ℕ) : (n : ℚ) < 10 ^ ((Nat.toDigits 10 n).length : ℤ) := by
  rw [zpow_natCast]
  exact_mod_cast lt_pow_length_toDigits n

theorem ten_zpow_length_le {n : ℕ} (hn : 0 < n) :
    (10 : ℚ) ^ (((Nat.toDigits 10 n).length : ℤ) - 1) ≤ n := by
  have hlength := Nat.length_toDigits_pos (b := 10) (n := n)
  have hcast : ((Nat.toDigits 10 n).length : ℤ) - 1 = ((Nat.toDigits 10 n).length - 1 : ℕ) := by
    omega
  have hle : 10 ^ ((Nat.toDigits 10 n).length - 1) ≤ n := by
    rcases Nat.eq_zero_or_pos ((Nat.toDigits 10 n).length - 1) with hone | hmore
    · rw [hone]
      exact hn
    · refine Nat.le_of_not_lt fun hlt => ?_
      have hshort := (Nat.length_toDigits_le_iff (b := 10) (by decide) hmore).2 hlt
      omega
  rw [hcast, zpow_natCast]
  exact_mod_cast hle

/-- Below the lower bound the digits do not matter: the number is nearest to zero. -/
theorem lt_of_length_le {digits : ℕ} {scale : ℤ}
    (h : ((Nat.toDigits 10 digits).length : ℤ) + scale ≤ -330) :
    (digits : ℚ) * 10 ^ scale < 2 ^ (-1075 : ℤ) := by
  have hten : (0 : ℚ) < 10 ^ scale := zpow_pos (by norm_num) scale
  have hpow : (2 : ℚ) ^ 1075 ≤ 10 ^ 330 := by
    exact_mod_cast (by decide +kernel : 2 ^ 1075 ≤ 10 ^ 330)
  calc (digits : ℚ) * 10 ^ scale < 10 ^ ((Nat.toDigits 10 digits).length : ℤ) * 10 ^ scale :=
        mul_lt_mul_of_pos_right (lt_ten_zpow_length digits) hten
    _ = 10 ^ (((Nat.toDigits 10 digits).length : ℤ) + scale) := (zpow_add₀ (by norm_num) _ _).symm
    _ ≤ 10 ^ (-330 : ℤ) := zpow_le_zpow_right₀ (by norm_num) h
    _ ≤ 2 ^ (-1075 : ℤ) := by
        rw [zpow_neg, zpow_neg, zpow_ofNat, zpow_ofNat]
        exact inv_anti₀ (by positivity) hpow

/-- From the upper bound on the digits do not matter: the number is out of the range. -/
theorem limit_le_of_le_length {digits : ℕ} {scale : ℤ} (hpos : 0 < digits)
    (h : 310 ≤ ((Nat.toDigits 10 digits).length : ℤ) + scale) :
    2 ^ 1024 - 2 ^ 970 ≤ (digits : ℚ) * 10 ^ scale := by
  have hten : (0 : ℚ) < 10 ^ scale := zpow_pos (by norm_num) scale
  have hpow : (2 : ℚ) ^ 1024 ≤ 10 ^ (309 : ℤ) := by
    rw [zpow_ofNat]
    exact_mod_cast (by decide +kernel : 2 ^ 1024 ≤ 10 ^ 309)
  calc (2 : ℚ) ^ 1024 - 2 ^ 970 ≤ 2 ^ 1024 := sub_le_self _ (by positivity)
    _ ≤ 10 ^ (309 : ℤ) := hpow
    _ ≤ 10 ^ (((Nat.toDigits 10 digits).length : ℤ) - 1 + scale) :=
        zpow_le_zpow_right₀ (by norm_num) (by omega)
    _ = 10 ^ (((Nat.toDigits 10 digits).length : ℤ) - 1) * 10 ^ scale :=
        zpow_add₀ (by norm_num) _ _
    _ ≤ digits * 10 ^ scale := mul_le_mul_of_nonneg_right (ten_zpow_length_le hpos) hten.le

theorem rounded_ofDecimal (negative : Bool) (digits : ℕ) (scale : ℤ) :
    Rounded (withSign negative (digits * 10 ^ scale)) (ofDecimal negative digits scale) := by
  have hten : (0 : ℚ) < 10 ^ scale := zpow_pos (by norm_num) scale
  have hq : (0 : ℚ) ≤ digits * 10 ^ scale := by positivity
  unfold ofDecimal
  dsimp only
  split
  · rename_i hcase
    refine rounded_zero negative hq ?_
    rcases hcase with rfl | hsmall
    · rw [Nat.cast_zero, zero_mul]
      exact zpow_pos two_pos _
    · exact lt_of_length_le hsmall
  · rename_i hnot
    rw [not_or] at hnot
    have hpos : 0 < digits := Nat.pos_of_ne_zero hnot.1
    split
    · rename_i hlarge
      refine .infinite ?_
      rw [abs_withSign negative hq]
      exact limit_le_of_le_length hpos hlarge
    · split
      · rename_i hscale
        have hround := rounded_nearest negative
          (Nat.mul_pos hpos (Nat.pow_pos (by decide) : 0 < 10 ^ scale.toNat)) Nat.one_pos
        rwa [Nat.cast_one, div_one, Nat.cast_mul, cast_pow_toNat 10 hscale, Nat.cast_ofNat]
          at hround
      · rename_i hscale
        have hneg : 0 ≤ -scale := by omega
        have hround := rounded_nearest negative hpos
          (Nat.pow_pos (by decide) : 0 < 10 ^ (-scale).toNat)
        rwa [cast_pow_toNat 10 hneg, Nat.cast_ofNat, zpow_neg, div_inv_eq_mul] at hround

/-! ## The integer part -/

/-- The integer part of `x`, which is never farther from zero than `x`. -/
def truncate (x : ℚ) : ℤ := if 0 ≤ x then ⌊x⌋ else ⌈x⌉

theorem truncate_intCast (i : ℤ) : truncate i = i := by
  unfold truncate
  rw [Int.floor_intCast, Int.ceil_intCast, ite_self]

theorem truncate_withSign (negative : Bool) {x : ℚ} (hx : 0 ≤ x) :
    truncate (withSign negative x) = if negative then -⌊x⌋ else ⌊x⌋ := by
  cases negative
  · exact if_pos hx
  · show truncate (-x) = -⌊x⌋
    unfold truncate
    rcases hx.eq_or_lt with rfl | hpos
    · rw [neg_zero, if_pos le_rfl, Int.floor_zero, neg_zero]
    · rw [if_neg (not_le.2 (neg_neg_of_pos hpos)), Int.ceil_neg]

theorem floor_eq_magnitude (m : ℕ) (e : ℤ) : ⌊(m : ℚ) * 2 ^ e⌋ = magnitude m e := by
  unfold magnitude
  split
  · rename_i he
    have hint : (m : ℚ) * 2 ^ e = ((m <<< e.toNat : ℕ) : ℤ) := by
      rw [Nat.shiftLeft_eq, Int.cast_natCast, Nat.cast_mul, cast_pow_toNat 2 he, Nat.cast_ofNat]
    rw [hint, Int.floor_intCast]
  · rename_i he
    have hneg : 0 ≤ -e := by omega
    have hquotient : (m : ℚ) * 2 ^ e = (m : ℚ) / ((2 ^ (-e).toNat : ℕ) : ℚ) := by
      rw [cast_pow_toNat 2 hneg, Nat.cast_ofNat, zpow_neg, div_inv_eq_mul]
    rw [hquotient, Nat.shiftRight_eq_div_pow]
    exact Rat.floor_natCast_div_natCast m _

/-- The integer part of a finite number is that of its value. -/
theorem trunc?_eq (negative : Bool) (m : ℕ) (e : ℤ) :
    (finite negative m e).trunc? = some (truncate ((signed negative m : ℤ) * 2 ^ e)) := by
  have hpos : (0 : ℚ) ≤ m * 2 ^ e := by positivity
  rw [trunc?_finite, signed_eq_withSign, ← withSign_mul, truncate_withSign negative hpos,
    floor_eq_magnitude]
  rfl

/-- A number without an integer part is what numbers out of the range are rounded to. -/
theorem Rounded.trunc?_eq_none_iff {q : ℚ} {x : Binary64} (h : Rounded q x) :
    x.trunc? = none ↔ 2 ^ 1024 - 2 ^ 970 ≤ |q| := by
  cases h with
  | finite hlt hnearest => exact iff_of_false (by rw [trunc?_eq]; simp) (not_le.2 hlt)
  | infinite hle => exact iff_of_true rfl hle

theorem Rounded.exists_nearest {q : ℚ} {x : Binary64} (h : Rounded q x)
    (hlt : |q| < 2 ^ 1024 - 2 ^ 970) :
    ∃ y, (∀ z, Nearest q z ↔ z = y) ∧ x.trunc? = some (truncate y) := by
  cases h with
  | finite _ hnearest => exact ⟨_, hnearest, trunc?_eq _ _ _⟩
  | infinite hle => exact absurd hlt (not_lt.2 hle)

/-- Rounding does not change the numbers of the format. -/
theorem Rounded.trunc?_of_representable {q : ℚ} {x : Binary64} (h : Rounded q x)
    (hq : Representable q) : x.trunc? = some (truncate q) := by
  obtain ⟨y, hnearest, htrunc⟩ := h.exists_nearest hq.lt_limit
  rw [htrunc, ← (hnearest q).1 hq.nearest_self]

end Proviso.Binary64
