/-
  What a line says to a rule.

  A line is a clause, opens a group, or is unusable; a line that spells an integer of too many
  digits interrupts loading. `ofLine_eq` says which of these a line is. The name of a clause is a
  token of its line (`name_of_clause?`), and its operand is within the bound on digits
  (`fits_of_clause?`).
-/
import Proviso.Proofs.Decimal
import Proviso.Rule.Loader

namespace Proviso

open Outline (Line Complaint)
open Numeral (Literal)

/-- The mode of the group that a line opens, if it opens one. -/
def Outline.Line.group? (l : Line) : Option Mode :=
  match l.tokens with
  | [word] => Mode.ofWord? word
  | _ => none

/-- The clause that a line spells, if it spells one. -/
def Outline.Line.clause? (l : Line) : Option Clause :=
  match l.tokens with
  | [word] => if word = Entry.neverWord then some .never else none
  | [first, second] => Entry.ofTwo? first second
  | [name, op, numeral] =>
    match (Literal.read? numeral).map Literal.value with
    | some (.ok number) => Entry.ofThree? name op number
    | _ => none
  | _ => none

/-- The fault of a line of three tokens whose third is an integer of more digits than are read. -/
def Outline.Line.overlong? (l : Line) : Option Numeral.Fault :=
  match l.tokens with
  | [_, _, numeral] =>
    (Literal.read? numeral).bind fun literal =>
      if literal.isInteger ∧ Numeral.maxDigits < literal.whole.length
      then some (.tooLongToRead literal.whole.length) else none
  | _ => none

/-- Whether a line is a clause or opens a group. -/
def Outline.Line.isUsable (l : Line) : Bool := l.clause?.isSome || l.group?.isSome

/-- What is wrong with an unusable line. A third token that is no literal is complained about
before the line. -/
def Outline.Line.complaints (l : Line) : List Complaint :=
  if l.isUsable then []
  else
    match l.tokens with
    | [_, _, numeral] =>
      if Numeral.isLiteral numeral then [.unrecognized] else [.notNumber numeral, .unrecognized]
    | _ => [.unrecognized]

/-- What a line that does not interrupt loading is to a rule. -/
def Outline.Line.entry (l : Line) : Entry :=
  match l.clause?, l.group? with
  | some c, _ => .clause c
  | none, some mode => .group mode
  | none, none => .rejected l.complaints

theorem Outline.Line.value_third {l : Line} {name op numeral : Text}
    (h : l.tokens = [name, op, numeral]) :
    l.value 2 =
      match Literal.read? numeral with
      | none => .ok (.float .nan, [.notNumber numeral])
      | some literal => literal.value.map (·, []) := by
  have htoken : l.token? 2 = some numeral := by
    unfold Line.token?
    rw [h]
    rfl
  cases hr : Literal.read? numeral with
  | none => simp [Line.value, htoken, hr]
  | some literal => simp [Line.value, htoken, hr]

theorem Entry.ofThree?_nan (name op : Text) : ofThree? name op (.float .nan) = none := rfl

/-- Everything a line can be to a rule. -/
theorem Entry.ofLine_eq (l : Line) :
    Entry.ofLine l =
      match l.overlong? with
      | some fault => .error fault
      | none => .ok l.entry := by
  unfold Entry.ofLine Line.overlong? Line.entry Line.complaints Line.isUsable Line.clause?
    Line.group?
  split
  · rename_i word hw
    rw [hw]
    by_cases hnever : word = neverWord
    · simp [hnever]
    · cases hm : Mode.ofWord? word with
      | none => simp [hnever, hm]
      | some mode => simp [hnever, hm]
  · rename_i first second hw
    rw [hw]
    rcases Option.eq_none_or_eq_some (ofTwo? first second) with hc | ⟨c, hc⟩
    · simp [ofClause?, hc]
    · simp [ofClause?, hc]
  · rename_i name op numeral hw
    rw [Line.value_third hw, hw]
    rcases Option.eq_none_or_eq_some (Literal.read? numeral) with hr | ⟨literal, hr⟩
    · simp [Except.map, ofClause?, ofThree?_nan, Numeral.isLiteral, hr]
    · simp only [hr, Option.bind_some, Option.map_some, Literal.value_eq]
      by_cases hlong : literal.isInteger ∧ Numeral.maxDigits < literal.whole.length
      · rw [if_pos hlong, if_pos hlong]
        rfl
      · rw [if_neg hlong, if_neg hlong]
        dsimp only [Except.map]
        rcases Option.eq_none_or_eq_some (ofThree? name op literal.number) with hc | ⟨c, hc⟩
        · simp [ofClause?, hc, Numeral.isLiteral, hr]
        · simp [ofClause?, hc]
  · rename_i h1 h2 h3
    split
    · rename_i heq
      split at heq <;> simp_all
    · split <;> simp_all

/-- No line is both a clause and the head of a group. -/
theorem Outline.Line.group?_of_clause? {l : Line} {c : Clause} (h : l.clause? = some c) :
    l.group? = none := by
  unfold Line.clause? at h
  unfold Line.group?
  split at h
  · rename_i word hw
    rw [hw]
    split at h
    · rename_i hnever
      rw [hnever]
      decide
    · exact absurd h (by simp)
  · rename_i hw
    rw [hw]
  · rename_i hw
    rw [hw]
  · exact absurd h (by simp)

theorem Entry.keyword?_fits {t : Text} {said : Operator × Int} (h : keyword? t = some said) :
    Numeral.fits said.2 = true := by
  unfold keyword? at h
  iterate 4
    split at h
    · rw [← Option.some.inj h]
      decide
  exact absurd h (by simp)

theorem Entry.suffix?_fits {t : Text} {said : Operator × Int} (h : suffix? t = some said) :
    Numeral.fits said.2 = true := by
  unfold suffix? at h
  iterate 2
    split at h
    · rw [← Option.some.inj h]
      decide
  exact absurd h (by simp)

theorem Entry.ofTwo?_name {first second : Text} {c : Clause} (h : ofTwo? first second = some c) :
    c.name = first ∨ c.name = second := by
  unfold ofTwo? at h
  split at h
  · exact Or.inr (by rw [← Option.some.inj h])
  · obtain ⟨said, -, rfl⟩ := Option.map_eq_some_iff.1 h
    exact Or.inl rfl

theorem Entry.ofTwo?_fits {first second : Text} {c : Clause} (h : ofTwo? first second = some c) :
    Numeral.fits c.operand = true := by
  unfold ofTwo? at h
  split at h
  · rename_i hkeyword
    rw [← Option.some.inj h]
    exact keyword?_fits hkeyword
  · obtain ⟨said, hsuffix, rfl⟩ := Option.map_eq_some_iff.1 h
    exact suffix?_fits hsuffix

theorem Entry.ofThree?_eq_some {name op : Text} {number : Number} {c : Clause}
    (h : ofThree? name op number = some c) :
    c.name = name ∧ number.trunc? = some c.operand := by
  unfold ofThree? at h
  split at h
  · rename_i htrunc _
    rw [← Option.some.inj h]
    exact ⟨rfl, htrunc⟩
  · exact absurd h (by simp)

/-- The name of a clause is a token of its line, but for the clause that is never satisfied. -/
theorem Outline.Line.name_of_clause? {l : Line} {c : Clause} (h : l.clause? = some c) :
    c.name = [] ∨ c.name ∈ l.tokens := by
  unfold Line.clause? at h
  split at h
  · split at h
    · exact Or.inl (by rw [← Option.some.inj h]; rfl)
    · exact absurd h (by simp)
  · rename_i hw
    rw [hw]
    rcases Entry.ofTwo?_name h with hname | hname
    · exact Or.inr (by simp [hname])
    · exact Or.inr (by simp [hname])
  · rename_i hw
    rw [hw]
    split at h
    · exact Or.inr (by simp [(Entry.ofThree?_eq_some h).1])
    · exact absurd h (by simp)
  · exact absurd h (by simp)

/-- The operand of a clause that is read is within the bound on digits. -/
theorem Outline.Line.fits_of_clause? {l : Line} {c : Clause} (h : l.clause? = some c) :
    Numeral.fits c.operand = true := by
  unfold Line.clause? at h
  split at h
  · split at h
    · rw [← Option.some.inj h]
      decide
    · exact absurd h (by simp)
  · exact Entry.ofTwo?_fits h
  · split at h
    · rename_i number hnumber
      obtain ⟨literal, hread, hvalue⟩ := Option.map_eq_some_iff.1 hnumber
      exact Literal.fits_operand hread hvalue (Entry.ofThree?_eq_some h).2
    · exact absurd h (by simp)
  · exact absurd h (by simp)

theorem Outline.Line.overlong?_of_isUsable {l : Line} (h : l.isUsable = true) :
    l.overlong? = none := by
  have hentry := Entry.ofLine_eq l
  cases hlong : l.overlong? with
  | none => rfl
  | some fault =>
    exfalso
    rw [hlong] at hentry
    unfold Line.isUsable at h
    unfold Line.overlong? at hlong
    split at hlong
    · rename_i name op numeral hw
      obtain ⟨literal, hr, hfault⟩ := Option.bind_eq_some_iff.1 hlong
      have hvalue : literal.value = .error (.tooLongToRead literal.whole.length) := by
        rw [Literal.value_eq]
        split at hfault
        · rename_i hif
          rw [if_pos hif]
        · exact absurd hfault (by simp)
      simp [Line.clause?, Line.group?, hw, hr, hvalue] at h
    · exact absurd hlong (by simp)

/-- An integer that is out of bounds interrupts loading wherever it stands for an operand. -/
theorem Outline.Line.overlong?_ofInt {l : Line} {name op : Text} {i : Int}
    (h : l.tokens = [name, op, Text.ofInt i]) (hi : Numeral.fits i = false) :
    l.overlong? = some (.tooLongToRead (Text.ofNat i.natAbs).length) := by
  obtain ⟨ds, hread, -, hlength⟩ := Literal.read?_ofInt i
  have hint : (Literal.mk (decide (i < 0)) ds none none).isInteger = true := rfl
  have hlong : Numeral.maxDigits < ds.length := by
    rw [hlength]
    exact Nat.lt_of_not_le (of_decide_eq_false hi)
  unfold Line.overlong?
  rw [h]
  dsimp only
  rw [hread, Option.bind_some, if_pos ⟨hint, hlong⟩, hlength]

theorem Outline.Line.unrecognized_complaints (l : Line) :
    l.complaints.filter (· = .unrecognized) = if l.isUsable then [] else [.unrecognized] := by
  unfold Line.complaints
  cases l.isUsable with
  | true => rfl
  | false =>
    simp only [Bool.false_eq_true, if_false]
    split
    · split <;> rfl
    · rfl

end Proviso
