/-
  The decimal text of integers.

  The decimal text of an integer is a literal of the same value (`value_ofInt`), and it needs no
  quotes as a token. An integer is within the bound on digits exactly if it is below a power of
  ten (`fits_iff`); what a literal denotes after truncation is always within it (`fits_operand`),
  the floating-point numbers because their exponents are bounded.
-/
import Mathlib.Algebra.Ring.Int.Defs
import Mathlib.Algebra.Ring.Nat
import Proviso.Numeral.Literal
import Proviso.Outline.Token

namespace Proviso

namespace Text

/-! ## Digits and their values -/

theorem digit?_digitChar {d : Nat} (h : d < 10) : digit? d.digitChar = some d := by
  have hall : ∀ d < 10, digit? d.digitChar = some d := by decide
  exact hall d h

theorem lt_ten_of_digit? {c : Char} {d : Nat} (h : digit? c = some d) : d < 10 := by
  unfold digit? at h
  obtain ⟨z, hz, rfl⟩ := Option.map_eq_some_iff.1 h
  have hrange := List.find?_some hz
  simp only [Bool.and_eq_true, decide_eq_true_eq] at hrange
  omega

theorem spanDigits_digitChars {ds : List Nat} (h : ∀ d ∈ ds, d < 10) :
    spanDigits (ds.map Nat.digitChar) = (ds, []) := by
  induction ds with
  | nil => rfl
  | cons d ds ih =>
    rw [List.forall_mem_cons] at h
    rw [List.map_cons, spanDigits, digit?_digitChar h.1]
    show (d :: (spanDigits _).1, (spanDigits _).2) = _
    rw [ih h.2]

theorem lt_ten_of_mem_spanDigits (t : Text) : ∀ d ∈ (spanDigits t).1, d < 10 := by
  induction t with
  | nil => exact fun _ h => absurd h List.not_mem_nil
  | cons c t ih =>
    rw [spanDigits]
    split
    · exact fun _ h => absurd h List.not_mem_nil
    · rename_i d hd
      exact List.forall_mem_cons.2 ⟨lt_ten_of_digit? hd, ih⟩

theorem numberOf_snoc (ds : List Nat) (d : Nat) : numberOf (ds ++ [d]) = 10 * numberOf ds + d := by
  unfold numberOf
  rw [List.foldl_append]
  rfl

theorem numberOf_lt {ds : List Nat} (h : ∀ d ∈ ds, d < 10) : numberOf ds < 10 ^ ds.length := by
  induction hn : ds.length generalizing ds with
  | zero =>
    rw [List.eq_nil_of_length_eq_zero hn]
    decide
  | succ n ih =>
    obtain rfl | ⟨front, d, rfl⟩ := List.eq_nil_or_concat ds
    · exact absurd hn (by simp)
    rw [List.concat_eq_append] at *
    rw [List.forall_mem_append, List.forall_mem_singleton] at h
    rw [List.length_append, List.length_singleton] at hn
    have hlt := ih h.1 (by omega)
    rw [numberOf_snoc, Nat.pow_succ]
    omega

/-- The decimal text of a number is made of its digits. -/
theorem exists_digits (n : Nat) :
    ∃ ds : List Nat, ofNat n = ds.map Nat.digitChar ∧ (∀ d ∈ ds, d < 10) ∧ numberOf ds = n := by
  induction n using Nat.strongRecOn with
  | ind n ih =>
    unfold ofNat
    rw [Nat.toDigits_eq_if (by decide)]
    by_cases hn : n < 10
    · rw [if_pos hn]
      refine ⟨[n], rfl, by simpa using hn, ?_⟩
      show 10 * 0 + n = n
      omega
    · rw [if_neg hn]
      obtain ⟨ds, htext, hds, hvalue⟩ := ih (n / 10) (by omega)
      refine ⟨ds ++ [n % 10], ?_, ?_, ?_⟩
      · rw [List.map_append, ← htext]
        rfl
      · rw [List.forall_mem_append, List.forall_mem_singleton]
        exact ⟨hds, by omega⟩
      · rw [numberOf_snoc, hvalue]
        omega

theorem digitChar_cases {d : Nat} (h : d < 10) :
    d.digitChar ≠ '-' ∧ d.digitChar ≠ '+' ∧ isBlank d.digitChar = false ∧ d.digitChar ≠ '#' ∧
      Outline.Token.isQuote d.digitChar = false := by
  have hall : ∀ d < 10, d.digitChar ≠ '-' ∧ d.digitChar ≠ '+' ∧ isBlank d.digitChar = false ∧
    d.digitChar ≠ '#' ∧ Outline.Token.isQuote d.digitChar = false := by decide
  exact hall d h

/-- The decimal text of an integer: its sign, if it is negative, and the digits of its magnitude. -/
theorem ofInt_eq (i : Int) :
    ofInt i = if i < 0 then '-' :: ofNat i.natAbs else ofNat i.natAbs := by
  cases i with
  | ofNat n => rfl
  | negSucc n =>
    rw [if_pos (Int.negSucc_lt_zero n)]
    rfl

/-- The decimal text of an integer holds nothing but digits and a sign. -/
theorem of_mem_ofInt {i : Int} {c : Char} (h : c ∈ ofInt i) :
    c = '-' ∨ ∃ d < 10, c = Nat.digitChar d := by
  obtain ⟨ds, htext, hds, -⟩ := exists_digits i.natAbs
  have hdigit : c ∈ ofNat i.natAbs → ∃ d < 10, c = Nat.digitChar d := by
    rw [htext]
    intro hmem
    obtain ⟨d, hd, rfl⟩ := List.mem_map.1 hmem
    exact ⟨d, hds d hd, rfl⟩
  rw [ofInt_eq] at h
  split at h
  · exact (List.mem_cons.1 h).imp_right hdigit
  · exact .inr (hdigit h)

/-- What is true of a sign and of ten digits is true of each character of the text. -/
theorem forall_mem_ofInt {P : Char → Prop} (hsign : P '-')
    (hdigit : ∀ d < 10, P (Nat.digitChar d)) (i : Int) : ∀ c ∈ ofInt i, P c := by
  intro c hc
  rcases of_mem_ofInt hc with rfl | ⟨d, hd, rfl⟩
  · exact hsign
  · exact hdigit d hd

/-- The decimal text of an integer needs no quotes as a token. -/
theorem needsQuotes_ofInt (i : Int) : Outline.Token.needsQuotes (ofInt i) = false := by
  obtain ⟨ds, htext, hds, -⟩ := exists_digits i.natAbs
  have hblank : ∀ c ∈ ofNat i.natAbs, isBlank c = false := by
    rw [htext]
    intro c hc
    obtain ⟨d, hd, rfl⟩ := List.mem_map.1 hc
    exact (digitChar_cases (hds d hd)).2.2.1
  rw [ofInt_eq]
  split
  · simp only [Outline.Token.needsQuotes, Bool.or_eq_false_iff, List.any_cons, List.any_eq_false]
    refine ⟨⟨⟨by decide, fun c hc => ?_⟩, by decide⟩, by decide⟩
    simp [hblank c hc]
  · cases ds with
    | nil => exact absurd htext Nat.toDigits_ne_nil
    | cons d ds =>
      obtain ⟨-, -, -, hhash, hquote⟩ := digitChar_cases (hds d List.mem_cons_self)
      rw [htext] at hblank ⊢
      simp only [List.map_cons, Outline.Token.needsQuotes, Bool.or_eq_false_iff,
        List.any_eq_false, beq_eq_false_iff_ne]
      exact ⟨⟨fun c hc => by simp [hblank c hc], hhash⟩, hquote⟩

end Text

/-! ## The bound on digits -/

namespace Numeral

theorem fits_iff (i : Int) : fits i = true ↔ i.natAbs < 10 ^ maxDigits := by
  unfold fits Text.ofNat
  rw [decide_eq_true_iff]
  exact Nat.length_toDigits_le_iff (by decide) (by decide)

theorem natAbs_signed (negative : Bool) (m : Nat) : (signed negative m).natAbs = m := by
  cases negative
  · exact Int.natAbs_natCast m
  · exact (Int.natAbs_neg _).trans (Int.natAbs_natCast m)

theorem signed_natAbs (i : Int) : signed (decide (i < 0)) i.natAbs = i := by
  unfold signed
  by_cases h : i < 0
  · simp only [h, decide_true, if_true]
    omega
  · simp only [h, decide_false, Bool.false_eq_true, if_false]
    omega

theorem spanSign_ofInt (i : Int) :
    spanSign (Text.ofInt i) = (decide (i < 0), Text.ofNat i.natAbs) := by
  rw [Text.ofInt_eq]
  by_cases h : i < 0
  · rw [if_pos h, decide_eq_true h]
    rfl
  · rw [if_neg h, decide_eq_false h]
    obtain ⟨ds, htext, hds, -⟩ := Text.exists_digits i.natAbs
    rw [htext]
    cases ds with
    | nil => rfl
    | cons d ds =>
      obtain ⟨hminus, hplus, -⟩ := Text.digitChar_cases (hds d List.mem_cons_self)
      rw [List.map_cons, spanSign]
      · exact fun _ hc => hminus (List.cons.inj hc).1
      · exact fun _ hc => hplus (List.cons.inj hc).1

namespace Literal

/-- The decimal text of an integer is a literal that is its sign and its digits. -/
theorem read?_ofInt (i : Int) :
    ∃ ds, read? (Text.ofInt i) = some ⟨decide (i < 0), ds, none, none⟩ ∧
      Text.numberOf ds = i.natAbs ∧ ds.length = (Text.ofNat i.natAbs).length := by
  obtain ⟨ds, htext, hds, hvalue⟩ := Text.exists_digits i.natAbs
  have hne : ds ≠ [] := by
    rintro rfl
    exact Nat.toDigits_ne_nil htext
  refine ⟨ds, ?_, hvalue, by rw [htext, List.length_map]⟩
  unfold read?
  rw [spanSign_ofInt, htext]
  simp only [Text.spanDigits_digitChars hds, spanFraction, exponent?, Option.getD_none,
    List.isEmpty_nil, Bool.and_true, Option.map_some]
  rw [if_neg (by simpa using hne)]

/-- The decimal text of an integer within the bound on digits is read as a literal of that value. -/
theorem value_ofInt {i : Int} (h : fits i = true) :
    ∃ literal, read? (Text.ofInt i) = some literal ∧ literal.value = .ok (.int i) := by
  obtain ⟨ds, hread, hvalue, hlength⟩ := read?_ofInt i
  have hlen : ds.length ≤ maxDigits := by
    rw [hlength]
    exact of_decide_eq_true h
  have hint : (Literal.mk (decide (i < 0)) ds none none).isInteger = true := rfl
  refine ⟨_, hread, ?_⟩
  unfold value
  rw [hint, if_pos rfl, if_pos hlen]
  simp only [digits, Option.getD_none, List.append_nil, hvalue, signed_natAbs]

end Literal

end Numeral

/-! ## The integer part of a floating-point number -/

namespace Binary64

theorem roundHalfEven_le (num den : Nat) : roundHalfEven num den ≤ num / den + 1 := by
  unfold roundHalfEven
  dsimp only
  split
  · omega
  · split
    · omega
    · omega

/-- Below the unit of the significand, rounding adds at most one unit. -/
theorem scaled_mul_le {num den : Nat} {e : Int} (he : 0 ≤ e) :
    scaled num den e * 2 ^ e.toNat ≤ num / den + 2 ^ e.toNat := by
  unfold scaled
  rw [if_pos he, Nat.shiftLeft_eq]
  have hround := roundHalfEven_le num (den * 2 ^ e.toNat)
  rw [← Nat.div_div_eq_div_mul] at hround
  calc roundHalfEven num (den * 2 ^ e.toNat) * 2 ^ e.toNat
      ≤ (num / den / 2 ^ e.toNat + 1) * 2 ^ e.toNat := Nat.mul_le_mul_right _ hround
    _ = num / den / 2 ^ e.toNat * 2 ^ e.toNat + 2 ^ e.toNat := by rw [Nat.add_mul, Nat.one_mul]
    _ ≤ num / den + 2 ^ e.toNat := Nat.add_le_add_right (Nat.div_mul_le_self _ _) _

theorem scaled_div_le {num den bound : Nat} {e : Int} (he : e < 0) (h : num < den * bound) :
    scaled num den e / 2 ^ (-e).toNat ≤ bound := by
  unfold scaled
  rw [if_neg (by omega), Nat.shiftLeft_eq]
  have hround := roundHalfEven_le (num * 2 ^ (-e).toNat) den
  have hlt : num * 2 ^ (-e).toNat < den * (bound * 2 ^ (-e).toNat) := by
    rw [← Nat.mul_assoc]
    exact Nat.mul_lt_mul_of_pos_right h (Nat.two_pow_pos _)
  have hdiv : num * 2 ^ (-e).toNat / den < bound * 2 ^ (-e).toNat := Nat.div_lt_of_lt_mul hlt
  refine Nat.div_le_of_le_mul ?_
  rw [Nat.mul_comm (2 ^ (-e).toNat) bound]
  omega

/-- The magnitude of the integer part. -/
def magnitude (m : Nat) (e : Int) : Nat := if 0 ≤ e then m <<< e.toNat else m >>> (-e).toNat

theorem trunc?_finite (negative : Bool) (m : Nat) (e : Int) :
    (finite negative m e).trunc? = some (signed negative (magnitude m e)) := rfl

theorem magnitude_scaled_le {num den bound : Nat} {e : Int} (h : num < den * bound)
    (he : e ≤ maxExponent) :
    magnitude (scaled num den e) e ≤ bound + 2 ^ maxExponent.toNat := by
  unfold magnitude
  by_cases hpos : 0 ≤ e
  · rw [if_pos hpos, Nat.shiftLeft_eq]
    have hdiv : num / den < bound := Nat.div_lt_of_lt_mul h
    have hpow : 2 ^ e.toNat ≤ 2 ^ maxExponent.toNat :=
      Nat.pow_le_pow_right (by decide) (Int.toNat_le_toNat he)
    have hle : scaled num den e * 2 ^ e.toNat ≤ num / den + 2 ^ e.toNat := scaled_mul_le hpos
    omega
  · rw [if_neg hpos, Nat.shiftRight_eq_div_pow]
    exact Nat.le_trans (scaled_div_le (by omega) h) (Nat.le_add_right _ _)

/-- A significand that has grown by a digit stands for the same number. -/
theorem magnitude_carry {e : Int} :
    magnitude leastFull (e + 1) ≤ magnitude significandBound e + leastFull := by
  have hdouble : significandBound = 2 * leastFull := by decide
  unfold magnitude
  by_cases hpos : 0 ≤ e
  · rw [if_pos (by omega), if_pos hpos, Nat.shiftLeft_eq, Nat.shiftLeft_eq, hdouble,
      Int.toNat_add hpos (by decide), Nat.pow_add]
    show leastFull * (2 ^ e.toNat * 2) ≤ _
    rw [Nat.mul_comm (2 ^ e.toNat) 2, ← Nat.mul_assoc, Nat.mul_comm leastFull 2]
    omega
  · by_cases hzero : 0 ≤ e + 1
    · have : (e + 1).toNat = 0 := by omega
      rw [if_pos hzero, this, Nat.shiftLeft_zero]
      omega
    · rw [if_neg hzero, Nat.shiftRight_eq_div_pow]
      have := Nat.div_le_self leastFull (2 ^ (-(e + 1)).toNat)
      omega

/-- The integer part of the number nearest to a quotient is not much above the quotient. -/
theorem natAbs_trunc?_nearest_le {negative : Bool} {num den bound : Nat} {i : Int}
    (h : num < den * bound) (hi : (nearest negative num den).trunc? = some i) :
    i.natAbs ≤ bound + 2 ^ maxExponent.toNat + leastFull := by
  unfold nearest at hi
  dsimp only at hi
  by_cases hfull : scaled num den (exponentFor num den) = significandBound
  · rw [if_pos hfull] at hi
    dsimp only at hi
    split at hi
    · exact absurd hi (by simp [trunc?])
    · rename_i hmax
      rw [trunc?_finite, Option.some.injEq] at hi
      rw [← hi, Numeral.natAbs_signed]
      have hle := magnitude_scaled_le (e := exponentFor num den) h (by omega)
      rw [hfull] at hle
      have := magnitude_carry (e := exponentFor num den)
      omega
  · rw [if_neg hfull] at hi
    dsimp only at hi
    split at hi
    · exact absurd hi (by simp [trunc?])
    · rename_i hmax
      rw [trunc?_finite, Option.some.injEq] at hi
      rw [← hi, Numeral.natAbs_signed]
      have hle := magnitude_scaled_le (e := exponentFor num den) h (by omega)
      omega

theorem lt_pow_length_toDigits (n : Nat) : n < 10 ^ (Nat.toDigits 10 n).length :=
  (Nat.length_toDigits_le_iff (by decide) Nat.length_toDigits_pos).1 (Nat.le_refl _)

/-- A decimal number that is not rounded to infinity is below a power of ten, whatever the power
by which its digits are multiplied. -/
theorem natAbs_trunc?_ofDecimal_lt {negative : Bool} {digits : Nat} {scale i : Int}
    (hi : (ofDecimal negative digits scale).trunc? = some i) :
    i.natAbs < 10 ^ Numeral.maxDigits := by
  have hlength := lt_pow_length_toDigits digits
  -- Any bound between 10 ^ 310 and 10 ^ maxDigits would do.
  have hbound : ∀ num den : Nat, num < den * 10 ^ maxExponent.toNat →
      (nearest negative num den).trunc? = some i → i.natAbs < 10 ^ Numeral.maxDigits := by
    intro num den hnum hnear
    have hle := natAbs_trunc?_nearest_le hnum hnear
    have htwo : 2 ^ maxExponent.toNat ≤ 10 ^ maxExponent.toNat := Nat.pow_le_pow_left (by decide) _
    have hfull : leastFull ≤ 10 ^ maxExponent.toNat :=
      Nat.le_trans (by decide : leastFull ≤ 10 ^ 16) (Nat.pow_le_pow_right (by decide) (by decide))
    have htop : 10 ^ maxExponent.toNat * 10 ≤ 10 ^ Numeral.maxDigits := by
      rw [← Nat.pow_succ]
      exact Nat.pow_le_pow_right (by decide) (by decide)
    have hpos : 0 < 10 ^ maxExponent.toNat := Nat.pow_pos (by decide)
    omega
  unfold ofDecimal at hi
  dsimp only at hi
  split at hi
  · have hzero : i.natAbs = 0 := by
      rw [zero, trunc?_finite, Option.some.injEq] at hi
      rw [← hi, Numeral.natAbs_signed]
      exact Nat.zero_shiftRight _
    rw [hzero]
    exact Nat.pow_pos (by decide)
  · split at hi
    · exact absurd hi (by simp [trunc?])
    · rename_i hsmall
      have hmax : maxExponent.toNat = 971 := rfl
      split at hi
      · rename_i hscale
        refine hbound _ _ ?_ hi
        rw [Nat.one_mul]
        calc digits * Nat.pow 10 scale.toNat
            < 10 ^ (Nat.toDigits 10 digits).length * 10 ^ scale.toNat :=
              Nat.mul_lt_mul_of_pos_right hlength (Nat.pow_pos (by decide))
          _ = 10 ^ ((Nat.toDigits 10 digits).length + scale.toNat) := (Nat.pow_add ..).symm
          _ ≤ 10 ^ maxExponent.toNat := Nat.pow_le_pow_right (by decide) (by omega)
      · rename_i hscale
        refine hbound _ _ ?_ hi
        calc digits < 10 ^ (Nat.toDigits 10 digits).length := hlength
          _ ≤ 10 ^ ((-scale).toNat + maxExponent.toNat) :=
              Nat.pow_le_pow_right (by decide) (by omega)
          _ = Nat.pow 10 (-scale).toNat * 10 ^ maxExponent.toNat := Nat.pow_add ..

end Binary64

/-! ## What a literal denotes -/

namespace Numeral.Literal

/-- The number that a literal denotes, whatever its length. -/
def number (literal : Literal) : Number :=
  if literal.isInteger then .int (signed literal.negative literal.digits)
  else .float (.ofDecimal literal.negative literal.digits literal.scale)

theorem value_eq (literal : Literal) :
    literal.value =
      if literal.isInteger ∧ maxDigits < literal.whole.length
      then .error (.tooLongToRead literal.whole.length) else .ok literal.number := by
  unfold value number
  cases hi : literal.isInteger with
  | false => simp
  | true =>
    by_cases hl : literal.whole.length ≤ maxDigits
    · simp [hl]
    · simp [hl, Nat.lt_of_not_le hl]

theorem lt_ten_of_read? {t : Text} {literal : Literal} (h : read? t = some literal) :
    ∀ d ∈ literal.whole, d < 10 := by
  unfold read? at h
  dsimp only at h
  split at h
  · exact absurd h (by simp)
  · obtain ⟨_, -, rfl⟩ := Option.map_eq_some_iff.1 h
    exact Text.lt_ten_of_mem_spanDigits _

/-- The integer part of what a literal denotes is within the bound on digits. -/
theorem fits_operand {t : Text} {literal : Literal} {number : Number} {i : Int}
    (hread : read? t = some literal) (hvalue : literal.value = .ok number)
    (hi : number.trunc? = some i) : fits i = true := by
  rw [fits_iff]
  rw [value_eq] at hvalue
  split at hvalue
  · exact absurd hvalue (by simp)
  · rename_i hlong
    rw [Except.ok.injEq] at hvalue
    rw [← hvalue, Literal.number] at hi
    cases hint : literal.isInteger with
    | false =>
      rw [hint] at hi
      exact Binary64.natAbs_trunc?_ofDecimal_lt hi
    | true =>
      rw [hint] at hi hlong
      have hfraction : literal.fraction = none := by
        unfold isInteger at hint
        simpa using (Bool.and_eq_true_iff.1 hint).1
      have hlen : literal.whole.length ≤ maxDigits := by simpa using hlong
      have hi' : signed literal.negative literal.digits = i := Option.some.inj hi
      rw [← hi', natAbs_signed, digits, hfraction, Option.getD_none, List.append_nil]
      exact Nat.lt_of_lt_of_le (Text.numberOf_lt (lt_ten_of_read? hread))
        (Nat.pow_le_pow_right (by decide) hlen)

end Numeral.Literal

end Proviso
