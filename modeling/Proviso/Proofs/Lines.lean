/-
  Lines and the text they make up.

  Lines that hold no line break are what `lines` finds in the text that `unlines` makes of
  them (`lines_unlines`). Conversely no line of a text holds a break (`not_break_of_mem_lines`),
  and the lines one after another are what is left of the text without its breaks
  (`flatten_lines_sublist`).
-/
import Proviso.Text.Blank
import Proviso.Text.Lines

namespace Proviso.Text

open List (Sublist)

/-- No character of the text ends a line. -/
def Unbroken (t : Text) : Prop := ∀ c ∈ t, isLineBreak c = false

instance : DecidablePred Unbroken := fun t => List.decidableBAll (isLineBreak · = false) t

theorem unbroken_nil : Unbroken [] := fun _ h => absurd h List.not_mem_nil

theorem unbroken_cons {c : Char} {t : Text} :
    Unbroken (c :: t) ↔ isLineBreak c = false ∧ Unbroken t := List.forall_mem_cons

theorem unbroken_append {s t : Text} : Unbroken (s ++ t) ↔ Unbroken s ∧ Unbroken t :=
  List.forall_mem_append

theorem Unbroken.sublist {s t : Text} (ht : Unbroken t) (h : Sublist s t) : Unbroken s :=
  fun c hc => ht c (h.subset hc)

/-- What is true of all ten characters that end a line is true of each. -/
theorem of_isLineBreak {p : Char → Bool} {c : Char} (h : isLineBreak c = true)
    (hall : List.all ['\n', '\x0B', '\x0C', '\r', '\x1C', '\x1D', '\x1E', '\u0085', '\u2028',
      '\u2029'] p = true) : p c = true :=
  List.all_eq_true.1 hall c (of_decide_eq_true h)

/-- A line break is blank, so it never gets into a token without quotes. -/
theorem isBlank_of_isLineBreak {c : Char} (h : isLineBreak c = true) : isBlank c = true :=
  of_isLineBreak h (by decide)

theorem unbroken_of_not_blank {t : Text} (h : ∀ c ∈ t, isBlank c = false) : Unbroken t := by
  intro c hc
  refine Bool.eq_false_iff.2 fun hb => ?_
  have hblank := isBlank_of_isLineBreak hb
  rw [h c hc] at hblank
  exact absurd hblank (by decide)

/-! ## Where a line ends -/

theorem linesFrom_cons {c : Char} (begun t : Text) (h : isLineBreak c = false) :
    linesFrom begun (c :: t) = linesFrom (c :: begun) t := by
  rw [linesFrom, if_neg (by simp [h])]
  rintro _ rfl
  exact absurd h (by decide)

/-- A break ends the line that is begun; a carriage return does so unless it is half of a break. -/
theorem linesFrom_break {c : Char} (hc : isLineBreak c = true) (begun : Text) {t : Text}
    (h : c = '\r' → t.head? ≠ some '\n') :
    linesFrom begun (c :: t) = begun.reverse :: linesFrom [] t := by
  rw [linesFrom, if_pos hc]
  rintro s rfl rfl
  exact h rfl rfl

theorem linesFrom_newline (begun t : Text) :
    linesFrom begun ('\n' :: t) = begun.reverse :: linesFrom [] t :=
  linesFrom_break (by decide) begun fun h => absurd h (by decide)

theorem linesFrom_line {line : Text} (h : Unbroken line) (begun t : Text) :
    linesFrom begun (line ++ '\n' :: t) = (begun.reverse ++ line) :: linesFrom [] t := by
  induction line generalizing begun with
  | nil => rw [List.nil_append, linesFrom_newline, List.append_nil]
  | cons c line ih =>
    rw [unbroken_cons] at h
    rw [List.cons_append, linesFrom_cons _ _ h.1, ih h.2]
    simp

theorem unlines_cons (line : Text) (ls : List Text) :
    unlines (line :: ls) = line ++ '\n' :: unlines ls := by
  simp [unlines]

/-- The lines are found again in the text they make up. -/
theorem lines_unlines {ls : List Text} (h : ∀ l ∈ ls, Unbroken l) : lines (unlines ls) = ls := by
  induction ls with
  | nil => rfl
  | cons line ls ih =>
    rw [List.forall_mem_cons] at h
    rw [unlines_cons, lines, linesFrom_line h.1]
    exact congrArg (line :: ·) (ih h.2)

/-! ## What a line holds -/

theorem not_break_of_mem_linesFrom {begun t line : Text} (hb : Unbroken begun)
    (h : line ∈ linesFrom begun t) : Unbroken line := by
  have hrev : ∀ {s : Text}, Unbroken s → Unbroken s.reverse :=
    fun hs c hc => hs c (List.mem_reverse.1 hc)
  fun_induction linesFrom begun t with
  | case1 => exact absurd h List.not_mem_nil
  | case2 begun =>
    rw [List.mem_singleton.1 h]
    exact hrev hb
  | case3 begun t ih =>
    rcases List.mem_cons.1 h with rfl | h
    · exact hrev hb
    · exact ih unbroken_nil h
  | case4 begun c t _ _ ih =>
    rcases List.mem_cons.1 h with rfl | h
    · exact hrev hb
    · exact ih unbroken_nil h
  | case5 begun c t _ hc ih =>
    exact ih (unbroken_cons.2 ⟨Bool.eq_false_iff.2 hc, hb⟩) h

/-- No line of a text holds a line break. -/
theorem not_break_of_mem_lines {t line : Text} (h : line ∈ lines t) : Unbroken line :=
  not_break_of_mem_linesFrom unbroken_nil h

theorem flatten_linesFrom_sublist (begun t : Text) :
    Sublist (linesFrom begun t).flatten (begun.reverse ++ t) := by
  fun_induction linesFrom begun t with
  | case1 => exact List.nil_sublist _
  | case2 begun => simp
  | case3 begun t ih =>
    rw [List.flatten_cons]
    exact (List.Sublist.refl _).append (ih.trans (by simp))
  | case4 begun c t _ _ ih =>
    rw [List.flatten_cons]
    exact (List.Sublist.refl _).append (ih.trans (by simp))
  | case5 begun c t _ _ ih => simpa using ih

/-- The lines of a text, one after another, are the text with some characters left out. -/
theorem flatten_lines_sublist (t : Text) : Sublist (lines t).flatten t :=
  flatten_linesFrom_sublist [] t

end Proviso.Text
