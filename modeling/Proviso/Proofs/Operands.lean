/-
  The operands that numeric literals denote.

  `Literal.rational` is the number that a literal spells, digit by digit and without rounding. As an
  operand it is exact if the literal is a sign and digits, not more than the bound allows. With a
  point or an exponent it is first rounded to the nearest number of the binary format and then cut
  to its integer part; a line whose number is out of the range of the format is not recognized
  (`Rule.operand_of_literal`). Integers up to the bound of significands are not changed by this,
  however they are written.
-/
import Proviso.Proofs.Reporting
import Proviso.Proofs.Rounding

namespace Proviso

open Binary64 (Nearest Rounded truncate withSign)
open Numeral (Literal)
open Outline (Line Node)

/-! ## The number that a literal spells -/

theorem Text.numberOf_append (ds es : List Nat) :
    numberOf (ds ++ es) = numberOf ds * 10 ^ es.length + numberOf es := by
  induction es using List.reverseRecOn with
  | nil => rw [List.append_nil, List.length_nil, Nat.pow_zero, Nat.mul_one]; rfl
  | append_singleton es e ih =>
    rw [← List.append_assoc, numberOf_snoc, numberOf_snoc, ih, List.length_append,
      List.length_singleton]
    ring

namespace Numeral.Literal

/-- The exponent of a literal, zero if it has none. -/
def power (l : Literal) : ℤ :=
  match l.exponent with
  | none => 0
  | some (negative, ds) => signed negative (Text.numberOf ds)

/-- The number that a literal spells: the digits before the point, those behind it at the places
that are theirs, times the power of ten, with the sign. -/
def rational (l : Literal) : ℚ :=
  withSign l.negative
    ((Text.numberOf l.whole
        + (Text.numberOf (l.fraction.getD []) : ℚ) / 10 ^ (l.fraction.getD []).length)
      * 10 ^ l.power)

/-- Reading all digits as one number and moving the point afterwards makes no difference. -/
theorem rational_eq (l : Literal) : l.rational = withSign l.negative (l.digits * 10 ^ l.scale) := by
  have hscale : l.scale = l.power - (l.fraction.getD []).length := rfl
  have hten : (10 : ℚ) ^ (l.fraction.getD []).length ≠ 0 := pow_ne_zero _ (by norm_num)
  unfold rational digits
  congr 1
  rw [Text.numberOf_append, hscale, zpow_sub₀ (by norm_num), zpow_natCast]
  push_cast
  field_simp

/-- A literal of a sign and digits spells the integer that it denotes. -/
theorem rational_of_isInteger {l : Literal} (h : l.isInteger = true) :
    ((signed l.negative l.digits : ℤ) : ℚ) = l.rational := by
  unfold isInteger at h
  rw [Bool.and_eq_true, Option.isNone_iff_eq_none, Option.isNone_iff_eq_none] at h
  have hscale : l.scale = 0 := by
    unfold scale
    rw [h.1, h.2]
    rfl
  rw [rational_eq, hscale, zpow_zero, mul_one, Binary64.signed_eq_withSign]

theorem trunc?_of_isInteger {l : Literal} (h : l.isInteger = true) :
    l.number.trunc? = some (signed l.negative l.digits) := by
  unfold number
  rw [h]
  rfl

/-- A literal with a point or an exponent denotes what its number is rounded to. -/
theorem rounded_of_not_isInteger {l : Literal} (h : l.isInteger = false) :
    ∃ x : Binary64, l.number.trunc? = x.trunc? ∧ Rounded l.rational x := by
  refine ⟨_, ?_, l.rational_eq ▸ Binary64.rounded_ofDecimal l.negative l.digits l.scale⟩
  unfold number
  rw [h]
  rfl

theorem trunc?_eq_none_iff {l : Literal} (h : l.isInteger = false) :
    l.number.trunc? = none ↔ 2 ^ 1024 - 2 ^ 970 ≤ |l.rational| := by
  obtain ⟨x, htrunc, hrounded⟩ := rounded_of_not_isInteger h
  rw [htrunc, hrounded.trunc?_eq_none_iff]

theorem exists_nearest {l : Literal} (h : l.isInteger = false)
    (hlt : |l.rational| < 2 ^ 1024 - 2 ^ 970) :
    ∃ x : ℚ, (∀ y, Nearest l.rational y ↔ y = x) ∧ l.number.trunc? = some (truncate x) := by
  obtain ⟨x, htrunc, hrounded⟩ := rounded_of_not_isInteger h
  rw [htrunc]
  exact hrounded.exists_nearest hlt

/-- Integers up to the bound of significands are denoted exactly, however they are written. -/
theorem trunc?_of_rational_eq {l : Literal} {i : ℤ} (h : (i : ℚ) = l.rational)
    (hi : |i| ≤ 2 ^ 53) : l.number.trunc? = some i := by
  cases hint : l.isInteger with
  | true =>
    have hsame : ((signed l.negative l.digits : ℤ) : ℚ) = i :=
      (rational_of_isInteger hint).trans h.symm
    rw [trunc?_of_isInteger hint, Int.cast_injective hsame]
  | false =>
    obtain ⟨x, htrunc, hrounded⟩ := rounded_of_not_isInteger hint
    rw [← h] at hrounded
    rw [htrunc, hrounded.trunc?_of_representable (Binary64.representable_intCast hi),
      Binary64.truncate_intCast]

end Numeral.Literal

/-! ## Lines with an operator -/

theorem Entry.ofThree?_spelling (name : Text) (op : Operator) (number : Number) :
    ofThree? name op.spelling number = number.trunc?.map fun i => ⟨name, op, i⟩ := by
  unfold ofThree?
  rw [Operator.ofSpelling?_spelling]
  cases number.trunc? with
  | none => rfl
  | some i => rfl

section

variable {l : Line} {name numeral : Text} {op : Operator} {literal : Literal}

/-- A line with an operator and a literal that is not too long is taken in with the integer part of
what the literal denotes, and reported if there is none. -/
theorem Rule.add_operation (hline : l.tokens = [name, op.spelling, numeral])
    (hspelled : literal.Spelled numeral)
    (hshort : literal.isInteger = true → literal.whole.length ≤ Numeral.maxDigits)
    (above : List Line) (rule : Rule) (below : List Node) :
    rule.add above ⟨l, below⟩ =
      match literal.number.trunc? with
      | some i => ⟨rule.addClause ⟨name, op, i⟩, [], none⟩
      | none => ⟨rule, [.reported (.about ⟨above, ⟨l, below⟩⟩ .unrecognized)], none⟩ := by
  have hvalue : literal.value = .ok literal.number :=
    Literal.value_eq_ok_iff.2 ⟨fun hlong => absurd (hshort hlong.1) (not_le.2 hlong.2), rfl⟩
  have hentry : Entry.ofLine l =
      .ok (Entry.ofClause? [] (literal.number.trunc?.map fun i => ⟨name, op, i⟩)) := by
    unfold Entry.ofLine
    rw [hline]
    dsimp only
    rw [Line.value_third hline, Literal.read?_eq_some_iff.2 hspelled]
    dsimp only
    rw [hvalue, ← Entry.ofThree?_spelling]
    rfl
  rw [Rule.add, hentry]
  cases literal.number.trunc? with
  | none => rfl
  | some i => rfl

theorem Rule.add_operation_of_eq_some {i : ℤ} (hline : l.tokens = [name, op.spelling, numeral])
    (hspelled : literal.Spelled numeral)
    (hshort : literal.isInteger = true → literal.whole.length ≤ Numeral.maxDigits)
    (h : literal.number.trunc? = some i) (above : List Line) (rule : Rule) (below : List Node) :
    rule.add above ⟨l, below⟩ = ⟨rule.addClause ⟨name, op, i⟩, [], none⟩ := by
  rw [Rule.add_operation hline hspelled hshort, h]

theorem Rule.add_operation_eq_rejected_iff (hline : l.tokens = [name, op.spelling, numeral])
    (hspelled : literal.Spelled numeral)
    (hshort : literal.isInteger = true → literal.whole.length ≤ Numeral.maxDigits)
    (above : List Line) (rule : Rule) (below : List Node) :
    rule.add above ⟨l, below⟩ =
        ⟨rule, [.reported (.about ⟨above, ⟨l, below⟩⟩ .unrecognized)], none⟩ ↔
      literal.number.trunc? = none := by
  rw [Rule.add_operation hline hspelled hshort]
  cases literal.number.trunc? with
  | none => exact iff_of_true rfl rfl
  | some i => simp

end

/-- The operand of a line with an operator and a literal. The literal is the only one that the text
spells, and `q` is the number that it spells. -/
theorem Rule.operand_of_literal {numeral : Text} (hliteral : Numeral.isLiteral numeral = true)
    {l : Line} {name : Text} {op : Operator} (hline : l.tokens = [name, op.spelling, numeral])
    (above : List Line) (rule : Rule) (below : List Node) :
    ∃ literal : Literal, (∀ other : Literal, other.Spelled numeral ↔ other = literal) ∧
      let q := literal.rational
      let loading := rule.add above ⟨l, below⟩
      let accepted (i : ℤ) : Loading := ⟨rule.addClause ⟨name, op, i⟩, [], none⟩
      let rejected : Loading :=
        ⟨rule, [.reported (.about ⟨above, ⟨l, below⟩⟩ .unrecognized)], none⟩
      (literal.isInteger = true → literal.whole.length ≤ Numeral.maxDigits →
        ∃ i : ℤ, (i : ℚ) = q ∧ loading = accepted i) ∧
      (literal.isInteger = false →
        (loading = rejected ↔ 2 ^ 1024 - 2 ^ 970 ≤ |q|) ∧
        (|q| < 2 ^ 1024 - 2 ^ 970 →
          ∃ x : ℚ, (∀ y, Nearest q y ↔ y = x) ∧ loading = accepted (truncate x))) ∧
      ((literal.isInteger = true → literal.whole.length ≤ Numeral.maxDigits) →
        ∀ i : ℤ, (i : ℚ) = q → |i| ≤ 2 ^ 53 → loading = accepted i) := by
  obtain ⟨literal, hspelled⟩ := Numeral.isLiteral_iff.1 hliteral
  refine ⟨literal, fun other => ⟨fun hother => ?_, fun h => h ▸ hspelled⟩, ?_⟩
  · have hread := Literal.read?_eq_some_iff.2 hspelled
    rw [Literal.read?_eq_some_iff.2 hother] at hread
    exact Option.some.inj hread
  intro q loading accepted rejected
  refine ⟨fun hint hlength => ?_, fun hnot => ?_, fun hshort i hi hbound => ?_⟩
  · have htrunc := Literal.trunc?_of_isInteger hint
    exact ⟨_, Literal.rational_of_isInteger hint,
      Rule.add_operation_of_eq_some hline hspelled (fun _ => hlength) htrunc above rule below⟩
  · have hshort : literal.isInteger = true → literal.whole.length ≤ Numeral.maxDigits :=
      fun hint => absurd (hnot.symm.trans hint) (by decide)
    refine ⟨?_, fun hlt => ?_⟩
    · rw [← Literal.trunc?_eq_none_iff hnot]
      exact Rule.add_operation_eq_rejected_iff hline hspelled hshort above rule below
    · obtain ⟨x, hnearest, htrunc⟩ := Literal.exists_nearest hnot hlt
      exact ⟨x, hnearest,
        Rule.add_operation_of_eq_some hline hspelled hshort htrunc above rule below⟩
  · have htrunc := Literal.trunc?_of_rational_eq hi hbound
    exact Rule.add_operation_of_eq_some hline hspelled hshort htrunc above rule below

/-- The number `2 ^ 53 + 1` lies in the middle between two numbers of the format. With a point
behind its digits it is rounded to the one with the even significand. -/
theorem Rule.operand_of_literal_halfway :
    let numeral : Text := "9007199254740993.".toList
    let l : Line := ⟨1, "x == 9007199254740993.".toList, [['x'], ['=', '='], numeral]⟩
    Numeral.isLiteral numeral = true ∧
      l.tokens = [['x'], (Operator.compare .equal).spelling, numeral] ∧
      ∃ literal : Literal, literal.Spelled numeral ∧ literal.rational = 2 ^ 53 + 1 ∧
        ∃ x : ℚ, (∀ y, Nearest literal.rational y ↔ y = x) ∧ truncate x = 2 ^ 53 ∧
          ((Rule.empty .all).add [] ⟨l, []⟩).rule.clauses = [⟨['x'], .compare .equal, 2 ^ 53⟩] := by
  intro numeral l
  have hliteral : Numeral.isLiteral numeral = true := by decide
  have hline : l.tokens = [['x'], (Operator.compare .equal).spelling, numeral] := rfl
  obtain ⟨literal, hunique, -, hrounded, -⟩ :=
    Rule.operand_of_literal hliteral hline [] (.empty .all) []
  have hparts : Literal.mk false [9, 0, 0, 7, 1, 9, 9, 2, 5, 4, 7, 4, 0, 9, 9, 3] (some []) none
      = literal := (hunique _).1 (Literal.read?_eq_some_iff.1 (by decide))
  have hrational : literal.rational = 2 ^ 53 + 1 := by
    rw [← hparts]
    norm_num [Literal.rational, Literal.power, withSign, Text.numberOf]
  have hclauses : ((Rule.empty .all).add [] ⟨l, []⟩).rule.clauses
      = [⟨['x'], .compare .equal, 2 ^ 53⟩] := by decide +kernel
  obtain ⟨hrejected, hnearest⟩ := hrounded (hparts ▸ rfl)
  have hlt : |literal.rational| < 2 ^ 1024 - 2 ^ 970 := by
    refine not_le.1 fun hle => ?_
    rw [hrejected.2 hle] at hclauses
    exact absurd hclauses (by decide)
  obtain ⟨x, hx, hloading⟩ := hnearest hlt
  refine ⟨hliteral, hline, literal, (hunique literal).2 rfl, hrational, x, hx, ?_, hclauses⟩
  rw [hloading] at hclauses
  have hclause : Clause.mk ['x'] (.compare .equal) (truncate x)
      = ⟨['x'], .compare .equal, 2 ^ 53⟩ := (List.cons.inj hclauses).1
  exact congrArg Clause.operand hclause

end Proviso
