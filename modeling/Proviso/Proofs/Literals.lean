/-
  The spelling of numeric literals.

  `Spelled` says what a literal looks like: an optional sign, digits, optionally a point with
  digits, optionally an exponent, and a digit before or behind the point. The reader takes as many
  digits as there are, which is no choice, since no digit is a sign, a point or the letter of an
  exponent; so it accepts exactly the texts that spell a literal, and finds that literal
  (`read?_eq_some_iff`).
-/
import Proviso.Numeral.Literal

namespace Proviso

namespace Numeral

/-! ## Parts of a literal -/

/-- The texts of a sign. -/
inductive SignText : Bool → Text → Prop where
  | bare : SignText false []
  | plus : SignText false ['+']
  | minus : SignText true ['-']

/-- The texts of digits, given by their values. -/
def DigitText (ds : List Nat) (t : Text) : Prop := t.map Text.digit? = ds.map some

/-- The texts of an optional point and the digits behind it. -/
inductive FractionText : Option (List Nat) → Text → Prop where
  | none : FractionText none []
  | point {ds : List Nat} {t : Text} (h : DigitText ds t) : FractionText (some ds) ('.' :: t)

/-- The texts of an optional exponent, which has a digit at least. -/
inductive ExponentText : Option (Bool × List Nat) → Text → Prop where
  | none : ExponentText none []
  | some {c : Char} {negative : Bool} {sign t : Text} {ds : List Nat} (hc : c = 'e' ∨ c = 'E')
      (hsign : SignText negative sign) (hds : ds ≠ []) (h : DigitText ds t) :
      ExponentText (some (negative, ds)) (c :: (sign ++ t))

/-- The text is a literal with the given parts. -/
inductive Literal.Spelled : Literal → Text → Prop where
  | mk {negative : Bool} {whole : List Nat} {fraction : Option (List Nat)}
      {exponent : Option (Bool × List Nat)} {sign digits point power : Text}
      (hsign : SignText negative sign) (hwhole : DigitText whole digits)
      (hfraction : FractionText fraction point) (hexponent : ExponentText exponent power)
      (hdigit : whole ≠ [] ∨ fraction.getD [] ≠ []) :
      Spelled ⟨negative, whole, fraction, exponent⟩ (sign ++ (digits ++ (point ++ power)))

/-- The text does not begin with a character of a class. -/
def Apart (p : Char → Bool) (t : Text) : Prop := ∀ c ∈ t.head?, p c = false

theorem apart_nil (p : Char → Bool) : Apart p [] := fun _ h => absurd h (by simp)

theorem apart_cons {p : Char → Bool} {c : Char} {t : Text} : Apart p (c :: t) ↔ p c = false := by
  simp [Apart]

theorem apart_append {p : Char → Bool} {s t : Text} (hs : Apart p s) (ht : Apart p t) :
    Apart p (s ++ t) := by
  cases s with
  | nil => exact ht
  | cons c s => exact hs

/-- A character that can be a sign. -/
def isSign (c : Char) : Bool := c == '-' || c == '+'

/-- The character of a point. -/
def isPoint (c : Char) : Bool := c == '.'

theorem isSign_of_isDigit {c : Char} (h : Text.isDigit c = true) : isSign c = false := by
  refine Bool.eq_false_iff.2 fun hsign => ?_
  have hcases : c = '-' ∨ c = '+' := by simpa [isSign] using hsign
  rcases hcases with rfl | rfl
  · exact absurd h (by decide)
  · exact absurd h (by decide)

/-- The letters of an exponent are no digits and no points. -/
theorem isDigit_of_mark {c : Char} (h : c = 'e' ∨ c = 'E') :
    Text.isDigit c = false ∧ isPoint c = false := by
  rcases h with rfl | rfl
  · exact ⟨by decide, by decide⟩
  · exact ⟨by decide, by decide⟩

theorem digitText_cons {ds : List Nat} {c : Char} {t : Text} :
    DigitText ds (c :: t) ↔ ∃ d ds', ds = d :: ds' ∧ Text.digit? c = some d ∧ DigitText ds' t := by
  unfold DigitText
  cases ds with
  | nil => simp
  | cons d ds =>
    rw [List.map_cons, List.map_cons, List.cons.injEq]
    constructor
    · intro h
      exact ⟨d, ds, rfl, h⟩
    · rintro ⟨d', ds', heq, h⟩
      obtain ⟨rfl, rfl⟩ := List.cons.inj heq
      exact h

theorem eq_nil_of_digitText {ds : List Nat} (h : DigitText ds []) : ds = [] :=
  List.map_eq_nil_iff.1 (Eq.symm h)

/-- Digits begin with a digit, which is no sign. -/
theorem apart_of_digitText {ds : List Nat} {t : Text} (h : DigitText ds t) : Apart isSign t := by
  cases t with
  | nil => exact apart_nil _
  | cons c t =>
    obtain ⟨d, -, -, hd, -⟩ := digitText_cons.1 h
    exact apart_cons.2 (isSign_of_isDigit (Option.isSome_of_eq_some hd))

/-- An exponent begins with its letter. -/
theorem apart_of_exponentText {exponent : Option (Bool × List Nat)} {t : Text}
    (h : ExponentText exponent t) : Apart Text.isDigit t ∧ Apart isPoint t := by
  cases h with
  | none => exact ⟨apart_nil _, apart_nil _⟩
  | some hc =>
    obtain ⟨hdigit, hpoint⟩ := isDigit_of_mark hc
    exact ⟨apart_cons.2 hdigit, apart_cons.2 hpoint⟩

/-- A fraction begins with its point. -/
theorem apart_of_fractionText {fraction : Option (List Nat)} {t : Text}
    (h : FractionText fraction t) : Apart Text.isDigit t ∧ Apart isSign t := by
  cases h with
  | none => exact ⟨apart_nil _, apart_nil _⟩
  | point => exact ⟨apart_cons.2 (by decide), apart_cons.2 (by decide)⟩

/-! ## What the reader of each part accepts -/

theorem signText_spanSign (t : Text) :
    ∃ sign, SignText (spanSign t).1 sign ∧ t = sign ++ (spanSign t).2 := by
  unfold spanSign
  split
  · exact ⟨['-'], .minus, rfl⟩
  · exact ⟨['+'], .plus, rfl⟩
  · exact ⟨[], .bare, rfl⟩

theorem spanSign_append {negative : Bool} {sign t : Text} (h : SignText negative sign)
    (ht : Apart isSign t) : spanSign (sign ++ t) = (negative, t) := by
  cases h with
  | plus => rfl
  | minus => rfl
  | bare =>
    rw [List.nil_append]
    unfold spanSign
    split
    · exact absurd (apart_cons.1 ht) (by decide)
    · exact absurd (apart_cons.1 ht) (by decide)
    · rfl

theorem digitText_spanDigits (t : Text) :
    ∃ digits, DigitText (Text.spanDigits t).1 digits ∧ t = digits ++ (Text.spanDigits t).2 := by
  induction t with
  | nil => exact ⟨[], rfl, rfl⟩
  | cons c t ih =>
    obtain ⟨digits, hdigits, ht⟩ := ih
    rw [Text.spanDigits]
    cases hd : Text.digit? c with
    | none => exact ⟨[], rfl, rfl⟩
    | some d =>
      exact ⟨c :: digits, digitText_cons.2 ⟨d, _, rfl, hd, hdigits⟩, congrArg (c :: ·) ht⟩

theorem spanDigits_append {ds : List Nat} {digits t : Text} (h : DigitText ds digits)
    (ht : Apart Text.isDigit t) : Text.spanDigits (digits ++ t) = (ds, t) := by
  induction digits generalizing ds with
  | nil =>
    rw [eq_nil_of_digitText h, List.nil_append]
    cases t with
    | nil => rfl
    | cons c t =>
      have hc : Text.digit? c = none :=
        Option.isNone_iff_eq_none.1 (Option.isSome_eq_false_iff.1 (apart_cons.1 ht))
      rw [Text.spanDigits, hc]
  | cons c digits ih =>
    obtain ⟨d, ds', rfl, hd, hrest⟩ := digitText_cons.1 h
    rw [List.cons_append, Text.spanDigits, hd, ih hrest]

theorem fractionText_spanFraction (t : Text) :
    ∃ point, FractionText (spanFraction t).1 point ∧ t = point ++ (spanFraction t).2 := by
  unfold spanFraction
  split
  · rename_i t
    obtain ⟨digits, hdigits, ht⟩ := digitText_spanDigits t
    exact ⟨'.' :: digits, .point hdigits, congrArg ('.' :: ·) ht⟩
  · exact ⟨[], .none, rfl⟩

theorem spanFraction_append {fraction : Option (List Nat)} {point t : Text}
    (h : FractionText fraction point) (hdigit : Apart Text.isDigit t) (hpoint : Apart isPoint t) :
    spanFraction (point ++ t) = (fraction, t) := by
  cases h with
  | none =>
    rw [List.nil_append]
    unfold spanFraction
    split
    · exact absurd (apart_cons.1 hpoint) (by decide)
    · rfl
  | point h => rw [List.cons_append, spanFraction, spanDigits_append h hdigit]

theorem exponent?_eq_some_iff {t : Text} {exponent : Option (Bool × List Nat)} :
    exponent? t = some exponent ↔ ExponentText exponent t := by
  constructor
  · intro h
    cases t with
    | nil =>
      rw [← Option.some.inj h]
      exact .none
    | cons c t =>
      rw [exponent?, Option.ite_none_right_eq_some] at h
      obtain ⟨hc, h⟩ := h
      dsimp only at h
      obtain ⟨sign, hsign, ht⟩ := signText_spanSign t
      obtain ⟨digits, hdigits, hrest⟩ := digitText_spanDigits (spanSign t).2
      split at h
      · rename_i d ds hspan
        rw [hspan] at hdigits hrest
        rw [List.append_nil] at hrest
        rw [ht, hrest, ← Option.some.inj h]
        exact .some hc hsign (List.cons_ne_nil d ds) hdigits
      · exact absurd h (by simp)
  · intro h
    cases h with
    | none => rfl
    | some hc hsign hds hdigits =>
      rename_i c negative sign digits ds
      have hspan : Text.spanDigits digits = (ds, []) := by
        have happend := spanDigits_append hdigits (apart_nil _)
        rw [List.append_nil] at happend
        exact happend
      rw [exponent?, if_pos hc, spanSign_append hsign (apart_of_digitText hdigits)]
      dsimp only
      rw [hspan]
      cases ds with
      | nil => exact absurd rfl hds
      | cons d ds => rfl

namespace Literal

/-- What is read is a literal with these parts. -/
theorem spelled_of_read? {t : Text} {literal : Literal} (h : read? t = some literal) :
    literal.Spelled t := by
  obtain ⟨sign, hsign, ht⟩ := signText_spanSign t
  obtain ⟨digits, hdigits, hafter⟩ := digitText_spanDigits (spanSign t).2
  obtain ⟨point, hpoint, hend⟩ := fractionText_spanFraction (Text.spanDigits (spanSign t).2).2
  rw [read?] at h
  dsimp only at h
  rw [Option.ite_none_left_eq_some] at h
  obtain ⟨hnonempty, h⟩ := h
  obtain ⟨exponent, hexponent, rfl⟩ := Option.map_eq_some_iff.1 h
  have hdigit : (Text.spanDigits (spanSign t).2).1 ≠ [] ∨
      (spanFraction (Text.spanDigits (spanSign t).2).2).1.getD [] ≠ [] := by
    simpa [Classical.or_iff_not_imp_left] using hnonempty
  have hmk := Spelled.mk hsign hdigits hpoint (exponent?_eq_some_iff.1 hexponent) hdigit
  rw [← hend, ← hafter, ← ht] at hmk
  exact hmk

/-- A literal is read from each of its texts. -/
theorem read?_of_spelled {t : Text} {literal : Literal} (h : literal.Spelled t) :
    read? t = some literal := by
  cases h with
  | mk hsign hdigits hpoint hexponent hdigit =>
    rename_i negative whole fraction exponent sign digits point power
    obtain ⟨hpower, hpower'⟩ := apart_of_exponentText hexponent
    obtain ⟨hfraction, hfraction'⟩ := apart_of_fractionText hpoint
    -- A digit stands somewhere, so what is behind the sign begins with a digit or a point.
    have hbody : Apart isSign (digits ++ (point ++ power)) := by
      cases digits with
      | cons c digits => exact apart_cons.2 (apart_cons.1 (apart_of_digitText hdigits))
      | nil =>
        have hwhole : whole = [] := eq_nil_of_digitText hdigits
        cases hpoint with
        | none => exact absurd hdigit (by simp [hwhole])
        | point _ => exact apart_cons.2 (apart_cons.1 hfraction')
    have hfilled : ¬ (whole.isEmpty && (fraction.getD []).isEmpty) = true := by
      rcases hdigit with hwhole | hfrac
      · simp [hwhole]
      · simp [hfrac]
    rw [read?, spanSign_append hsign hbody]
    dsimp only
    rw [spanDigits_append hdigits (apart_append hfraction hpower)]
    dsimp only
    rw [spanFraction_append hpoint hpower hpower']
    dsimp only
    rw [if_neg hfilled, exponent?_eq_some_iff.2 hexponent]
    rfl

/-- The reader accepts the texts of literals and nothing else. -/
theorem read?_eq_some_iff {t : Text} {literal : Literal} :
    read? t = some literal ↔ literal.Spelled t := ⟨spelled_of_read?, read?_of_spelled⟩

end Literal

end Numeral

end Proviso
