/-
  What readers of keys, strings and dates leave.

  Every reader leaves an end of the text that it is given (`Leaves`). A text that does not begin with
  as many digits as a year or an hour has, and the mark behind them, is no date and no time
  (`date?_eq_none`, `time?_eq_none`).
-/
import Mathlib.Data.List.Infix
import Proviso.Toml.Scalar

namespace Proviso.Toml

open List (IsSuffix)

/-! ## What readers leave -/

/-- What the reader leaves of a text is an end of it. -/
def Leaves {α : Type} (read : Text → Option (α × Text)) : Prop :=
  ∀ t a rest, read t = some (a, rest) → rest <:+ t

theorem eq_append_of_after? {s t rest : Text} (h : Text.after? s t = some rest) :
    t = s ++ rest := by
  induction s generalizing t with
  | nil => exact Option.some.inj h
  | cons c s ih =>
    cases t with
    | nil => exact nomatch h
    | cons d t =>
      rw [Text.after?, Option.ite_none_right_eq_some] at h
      rw [h.1, ih h.2]
      rfl

theorem suffix_of_after? {s t rest : Text} (h : Text.after? s t = some rest) : rest <:+ t :=
  ⟨s, (eq_append_of_after? h).symm⟩

theorem suffix_of_dropWhile {p : Char → Bool} {t rest : Text} {c : Char}
    (h : t.dropWhile p = c :: rest) : rest <:+ t :=
  (List.suffix_cons c rest).trans (h ▸ List.dropWhile_suffix p)

section Reader

variable {α : Type} {read : Text → Option (α × Text)} {t : Text}

theorem Reader.run_ofOption (read : Text → Option (α × Text)) (t : Text) :
    (Reader.ofOption read).run t = (read t).elim (.error .malformed) .ok := by
  show Reader.ofOption read t = _
  unfold Reader.ofOption
  cases read t <;> rfl

theorem Reader.run_ofOption_eq_ok_iff {x : α × Text} :
    (Reader.ofOption read).run t = .ok x ↔ read t = some x := by
  rw [Reader.run_ofOption]
  cases read t <;> simp

theorem Reader.run_ofOption_ne_numeral (fault : Numeral.Fault) :
    (Reader.ofOption read).run t ≠ .error (.numeral fault) := by
  rw [Reader.run_ofOption]
  cases read t <;> simp

end Reader

theorem leaves_hexChar? (count : Nat) : Leaves (hexChar? count) := by
  intro t c rest h
  unfold hexChar? at h
  split at h
  · exact nomatch h
  · dsimp only at h
    rw [Option.ite_none_right_eq_some] at h
    rw [← (Prod.mk.inj (Option.some.inj h.2)).2]
    exact List.drop_suffix _ _

theorem leaves_escape? (severalLines : Bool) : Leaves (escape? severalLines) := by
  intro t s rest h
  unfold escape? at h
  split at h
  case h_8 | h_9 =>
    obtain ⟨⟨c, u⟩, hu, heq⟩ := Option.map_eq_some_iff.1 h
    rw [← (Prod.mk.inj heq).2]
    exact (leaves_hexChar? _ _ _ _ hu).trans (List.suffix_cons _ _)
  case h_10 c t _ _ _ _ _ _ _ _ _ =>
    rw [Option.ite_none_right_eq_some] at h
    obtain ⟨-, h⟩ := h
    split at h
    · rw [← (Prod.mk.inj (Option.some.inj h)).2]
      exact List.nil_suffix
    · next d u hdrop =>
      rw [Option.ite_none_right_eq_some] at h
      rw [← (Prod.mk.inj (Option.some.inj h.2)).2]
      exact (List.dropWhile_suffix _).trans (suffix_of_dropWhile hdrop)
  case h_11 => exact nomatch h
  all_goals
    rw [← (Prod.mk.inj (Option.some.inj h)).2]
    exact List.suffix_cons _ _

theorem leaves_basic? (severalLines : Bool) (fuel : Nat) : Leaves (basic? severalLines fuel) := by
  induction fuel with
  | zero => exact fun t s rest h => nomatch h
  | succ fuel ih =>
    intro t s rest h
    unfold basic? at h
    split at h
    · exact nomatch h
    · next u =>
      split at h
      · exact nomatch h
      · next s' u' hescape =>
        obtain ⟨⟨s'', u''⟩, hu, heq⟩ := Option.map_eq_some_iff.1 h
        rw [← (Prod.mk.inj heq).2]
        exact ((ih _ _ _ hu).trans (leaves_escape? _ _ _ _ hescape)).trans (List.suffix_cons _ _)
    · next c u _ =>
      dsimp only at h
      split at h
      · next u' _ hcloses =>
        rw [← (Prod.mk.inj (Option.some.inj h)).2]
        refine IsSuffix.trans ?_ (List.suffix_cons c u)
        cases severalLines with
        | true => exact suffix_of_after? hcloses
        | false => exact Option.some.inj hcloses ▸ List.suffix_rfl
      · rw [Option.ite_none_left_eq_some] at h
        obtain ⟨⟨s'', u''⟩, hu, heq⟩ := Option.map_eq_some_iff.1 h.2
        rw [← (Prod.mk.inj heq).2]
        exact (ih _ _ _ hu).trans (List.suffix_cons c u)

theorem leaves_literal? (severalLines : Bool) : Leaves (literal? severalLines) := by
  intro t
  induction t with
  | nil => exact fun s rest h => nomatch h
  | cons c u ih =>
    intro s rest h
    rw [literal?] at h
    dsimp only at h
    split at h
    · next u' _ hcloses =>
      rw [← (Prod.mk.inj (Option.some.inj h)).2]
      refine IsSuffix.trans ?_ (List.suffix_cons c u)
      cases severalLines with
      | true => exact suffix_of_after? hcloses
      | false => exact Option.some.inj hcloses ▸ List.suffix_rfl
    · rw [Option.ite_none_left_eq_some] at h
      obtain ⟨⟨s'', u''⟩, hu, heq⟩ := Option.map_eq_some_iff.1 h.2
      rw [← (Prod.mk.inj heq).2]
      exact (ih _ _ hu).trans (List.suffix_cons c u)

theorem suffix_trailing (quote : Char) (x : Text × Text) : (trailing quote x).2 <:+ x.2 := by
  obtain ⟨s, t⟩ := x
  unfold trailing
  dsimp only
  split
  · next u hu => exact suffix_of_after? hu
  · split
    · next u hu => exact suffix_of_after? hu
    · exact List.suffix_rfl

theorem suffix_dropBreak (t : Text) : dropBreak t <:+ t := by
  unfold dropBreak
  split
  · exact List.suffix_cons _ _
  · exact List.suffix_rfl

theorem leaves_line? : Leaves line? := by
  intro t s rest h
  unfold line? at h
  split at h
  · exact (leaves_basic? _ _ _ _ _ h).trans (List.suffix_cons _ _)
  · exact (leaves_literal? _ _ _ _ h).trans (List.suffix_cons _ _)
  · exact nomatch h

theorem leaves_string? : Leaves string? := by
  intro t s rest h
  have htrailing : ∀ {quote : Char} {o : Option (Text × Text)} {u : Text},
      o.map (trailing quote) = some (s, rest) → (∀ a v, o = some (a, v) → v <:+ u) →
      rest <:+ u := by
    intro quote o u hmap hleaves
    obtain ⟨⟨a, v⟩, hv, heq⟩ := Option.map_eq_some_iff.1 hmap
    have hrest : (trailing quote (a, v)).2 = rest := congrArg Prod.snd heq
    rw [← hrest]
    exact (suffix_trailing quote (a, v)).trans (hleaves a v hv)
  unfold string? at h
  split at h
  · next u hu =>
    refine (htrailing h fun a v hv => ?_).trans (suffix_of_after? hu)
    exact (leaves_basic? _ _ _ _ _ hv).trans (suffix_dropBreak u)
  · next u hu _ =>
    refine (htrailing h fun a v hv => ?_).trans (suffix_of_after? hu)
    exact (leaves_literal? _ _ _ _ hv).trans (suffix_dropBreak u)
  · exact leaves_line? t s rest h

theorem leaves_keyPart? : Leaves keyPart? := by
  intro t s rest h
  unfold keyPart? at h
  split at h
  · exact leaves_line? t s rest h
  · rw [← (Prod.mk.inj (Option.some.inj h)).2]
    exact List.dropWhile_suffix _

theorem leaves_keyParts? (fuel : Nat) : Leaves (keyParts? fuel) := by
  induction fuel with
  | zero => exact fun t s rest h => nomatch h
  | succ fuel ih =>
    intro t parts rest h
    rw [keyParts?] at h
    split at h
    · exact nomatch h
    · next part u hpart =>
      have hu : u <:+ t := (leaves_keyPart? _ _ _ hpart).trans (List.dropWhile_suffix _)
      refine IsSuffix.trans ?_ hu
      split at h
      · next v hdrop =>
        obtain ⟨⟨parts', w⟩, hw, heq⟩ := Option.map_eq_some_iff.1 h
        rw [← (Prod.mk.inj heq).2]
        exact (ih _ _ _ hw).trans (suffix_of_dropWhile hdrop)
      · rw [← (Prod.mk.inj (Option.some.inj h)).2]
        exact List.dropWhile_suffix _

/-! ### Dates and times -/

theorem leaves_fixed? (count least most : Nat) : Leaves (fixed? count least most) := by
  intro t n rest h
  unfold fixed? at h
  dsimp only at h
  rw [Option.ite_none_right_eq_some] at h
  rw [← (Prod.mk.inj (Option.some.inj h.2)).2]
  exact List.drop_suffix _ _

theorem suffix_of_time? {t rest : Text} (h : time? t = some rest) : rest <:+ t := by
  unfold time? at h
  obtain ⟨⟨_, t1⟩, h1, h⟩ := Option.bind_eq_some_iff.1 h
  obtain ⟨t2, h2, h⟩ := Option.bind_eq_some_iff.1 h
  obtain ⟨⟨_, t3⟩, h3, h⟩ := Option.bind_eq_some_iff.1 h
  obtain ⟨t4, h4, h⟩ := Option.bind_eq_some_iff.1 h
  obtain ⟨⟨_, t5⟩, h5, h⟩ := Option.bind_eq_some_iff.1 h
  have hclock : t5 <:+ t := (leaves_fixed? _ _ _ _ _ _ h5).trans ((suffix_of_after? h4).trans
    ((leaves_fixed? _ _ _ _ _ _ h3).trans ((suffix_of_after? h2).trans
      (leaves_fixed? _ _ _ _ _ _ h1))))
  refine IsSuffix.trans ?_ hclock
  dsimp only at h
  split at h
  · next c u =>
    rw [← Option.some.inj h]
    split
    · exact (List.dropWhile_suffix _).trans ((List.suffix_cons c u).trans (List.suffix_cons '.' _))
    · exact List.suffix_rfl
  · exact Option.some.inj h ▸ List.suffix_rfl

theorem suffix_getD {o : Option Text} {t : Text} (h : ∀ u, o = some u → u <:+ t) :
    o.getD t <:+ t := by
  cases o with
  | none => exact List.suffix_rfl
  | some u => exact h u rfl

theorem suffix_dropOffset (t : Text) : dropOffset t <:+ t := by
  unfold dropOffset
  split
  · exact List.suffix_rfl
  · next c rest =>
    split
    · exact List.suffix_cons c rest
    · split
      · refine suffix_getD fun u h => ?_
        obtain ⟨⟨_, t1⟩, h1, h⟩ := Option.bind_eq_some_iff.1 h
        obtain ⟨t2, h2, h⟩ := Option.bind_eq_some_iff.1 h
        obtain ⟨⟨_, t3⟩, h3, h⟩ := Option.bind_eq_some_iff.1 h
        rw [← Option.some.inj h]
        exact (leaves_fixed? _ _ _ _ _ _ h3).trans ((suffix_of_after? h2).trans
          ((leaves_fixed? _ _ _ _ _ _ h1).trans (List.suffix_cons c rest)))
      · exact List.suffix_rfl

theorem leaves_date? : Leaves date? := by
  intro t day rest h
  unfold date? at h
  obtain ⟨⟨_, t1⟩, h1, h⟩ := Option.bind_eq_some_iff.1 h
  obtain ⟨t2, h2, h⟩ := Option.bind_eq_some_iff.1 h
  obtain ⟨⟨_, t3⟩, h3, h⟩ := Option.bind_eq_some_iff.1 h
  obtain ⟨t4, h4, h⟩ := Option.bind_eq_some_iff.1 h
  obtain ⟨⟨_, t5⟩, h5, h⟩ := Option.bind_eq_some_iff.1 h
  rw [← (Prod.mk.inj (Option.some.inj h)).2]
  exact (leaves_fixed? _ _ _ _ _ _ h5).trans ((suffix_of_after? h4).trans
    ((leaves_fixed? _ _ _ _ _ _ h3).trans ((suffix_of_after? h2).trans
      (leaves_fixed? _ _ _ _ _ _ h1))))

theorem suffix_dropTime (t : Text) : dropTime t <:+ t := by
  unfold dropTime
  split
  · exact List.suffix_rfl
  · next c rest =>
    split
    · split
      · next u hu =>
        exact (suffix_dropOffset u).trans ((suffix_of_time? hu).trans (List.suffix_cons c rest))
      · exact List.suffix_rfl
    · exact List.suffix_rfl

/-! ### What is no date and no time -/

theorem fixed?_eq_none {count least most : Nat} {t : Text} {c : Char} (h : c ∈ t.take count)
    (hc : c.isDigit = false) : fixed? count least most t = none := by
  unfold fixed?
  dsimp only
  rw [if_neg]
  rintro ⟨-, hall, -⟩
  rw [List.all_eq_true.1 hall c h] at hc
  exact nomatch hc

theorem after?_eq_none {c : Char} {s t : Text} (h : t.head? ≠ some c) :
    Text.after? (c :: s) t = none := by
  cases t with
  | nil => rfl
  | cons d t =>
    rw [Text.after?, if_neg]
    exact fun heq => h (by rw [heq]; rfl)

/-- The text does not begin with a number of digits and a mark. -/
def NoField (count : Nat) (mark : Char) (t : Text) : Prop :=
  (∃ c ∈ t.take count, c.isDigit = false) ∨ (t.drop count).head? ≠ some mark

theorem NoField.after?_eq_none {count least most : Nat} {mark : Char} {t : Text}
    (h : NoField count mark t) {x : Nat × Text} (hx : fixed? count least most t = some x) :
    Text.after? [mark] x.2 = none := by
  rcases h with ⟨c, hmem, hc⟩ | hmark
  · rw [fixed?_eq_none hmem hc] at hx
    exact nomatch hx
  · have hrest : x.2 = t.drop count := by
      unfold fixed? at hx
      dsimp only at hx
      rw [Option.ite_none_right_eq_some] at hx
      exact (congrArg Prod.snd (Option.some.inj hx.2)).symm
    rw [hrest, Toml.after?_eq_none hmark]

theorem date?_eq_none {t : Text} (h : NoField 4 '-' t) : date? t = none := by
  unfold date?
  cases hfixed : fixed? 4 0 9999 t with
  | none => rfl
  | some x =>
    show (Text.after? ['-'] x.2 >>= _) = none
    rw [h.after?_eq_none hfixed]
    rfl

theorem time?_eq_none {t : Text} (h : NoField 2 ':' t) : time? t = none := by
  unfold time?
  cases hfixed : fixed? 2 0 23 t with
  | none => rfl
  | some x =>
    show (Text.after? [':'] x.2 >>= _) = none
    rw [h.after?_eq_none hfixed]
    rfl

end Proviso.Toml
