/-
  Numbers that are too long.

  `BeginsOverlong` tells by how it is written where a decimal integer of too many digits stands:
  digits that do not begin with a zero, single underscores in front of some of them, and behind them
  neither a point nor an exponent. `readScalar_eq_error_iff`: what is read as a date, a time or a
  number is refused for its length exactly if such an integer stands there.
-/
import Proviso.Proofs.Decimal
import Proviso.Proofs.Literals
import Proviso.Proofs.Scanners

namespace Proviso

/-! ## A literal without point and exponent -/

namespace Numeral.Literal

/-- There is nothing but a sign and digits in it. -/
theorem of_mem_of_isInteger {t : Text} {l : Literal} (h : read? t = some l)
    (hint : l.isInteger = true) : ∀ c ∈ t, isSign c = true ∨ Text.isDigit c = true := by
  cases spelled_of_read? h with
  | mk hsign hwhole hfraction hexponent _ =>
    have hnone := hint
    simp only [isInteger, Bool.and_eq_true, Option.isNone_iff_eq_none] at hnone
    obtain ⟨rfl, rfl⟩ := hnone
    cases hfraction
    cases hexponent
    intro c hc
    rw [List.append_nil, List.append_nil, List.mem_append] at hc
    rcases hc with hc | hc
    · left
      cases hsign with
      | bare => exact absurd hc List.not_mem_nil
      | plus => rw [List.mem_singleton.1 hc]; rfl
      | minus => rw [List.mem_singleton.1 hc]; rfl
    · right
      have hmem := List.mem_map_of_mem (f := Text.digit?) hc
      rw [hwhole] at hmem
      obtain ⟨d, -, hd⟩ := List.mem_map.1 hmem
      exact Option.isSome_of_eq_some hd.symm

/-- So a part of it that could only begin with a mark is empty. -/
theorem eq_nil_of_isInteger {t u : Text} {l : Literal} {marks : List Char}
    (h : read? t = some l) (hint : l.isInteger = true) (hu : ∀ c ∈ u, c ∈ t)
    (hhead : ∀ c ∈ u.head?, c ∈ marks)
    (hmarks : ∀ c ∈ marks, isSign c = false ∧ Text.isDigit c = false) : u = [] := by
  cases u with
  | nil => rfl
  | cons c u =>
    obtain ⟨hsign, hdigit⟩ := hmarks c (hhead c rfl)
    rcases of_mem_of_isInteger h hint c (hu c List.mem_cons_self) with hc | hc
    · exact nomatch hsign.symm.trans hc
    · exact nomatch hdigit.symm.trans hc

/-- A sign and digits are read as just this. -/
theorem read?_of_digits {negative : Bool} {sign digits : Text} {ds : List Nat}
    (hsign : SignText negative sign) (hdigits : DigitText ds digits) (hne : ds ≠ []) :
    read? (sign ++ digits) = some ⟨negative, ds, none, none⟩ := by
  have hspelled := Spelled.mk hsign hdigits .none .none (.inl hne)
  rw [List.append_nil, List.append_nil] at hspelled
  exact read?_of_spelled hspelled

end Numeral.Literal

namespace Toml

open List (IsSuffix)
open Numeral (SignText)

/-! ## Runs of digits -/

/-- Characters of a class, some of them with a single underscore in front. -/
inductive IsRun (p : Char → Bool) : Text → Prop
  | nil : IsRun p []
  | plain {c : Char} {s : Text} (hc : p c = true) (hs : IsRun p s) : IsRun p (c :: s)
  | marked {c : Char} {s : Text} (hc : p c = true) (hs : IsRun p s) : IsRun p ('_' :: c :: s)

/-- The text begins with a character of the class, or with an underscore and one. -/
inductive RunsOn (p : Char → Bool) : Text → Prop
  | plain {c : Char} {t : Text} (hc : p c = true) : RunsOn p (c :: t)
  | marked {c : Char} {t : Text} (hc : p c = true) : RunsOn p ('_' :: c :: t)

section Runs

variable {p : Char → Bool} {s rest : Text}

theorem IsRun.forall_mem (h : IsRun p s) : ∀ c ∈ s, p c = true ∨ c = '_' := by
  induction h with
  | nil => exact fun _ h => absurd h List.not_mem_nil
  | plain hc _ ih => exact List.forall_mem_cons.2 ⟨.inl hc, ih⟩
  | marked hc _ ih => exact List.forall_mem_cons.2 ⟨.inr rfl, List.forall_mem_cons.2 ⟨.inl hc, ih⟩⟩

theorem IsRun.of_forall (h : ∀ c ∈ s, p c = true) : IsRun p s := by
  induction s with
  | nil => exact .nil
  | cons c s ih =>
    rw [List.forall_mem_cons] at h
    exact .plain h.1 (ih h.2)

/-- A run is what stands in front of the rest. Unless underscores are in the class themselves, it
goes on as far as it can, and they are left out. -/
theorem run_eq (p : Char → Bool) (t : Text) :
    ∃ s, t = s ++ (run p t).2 ∧ IsRun p s ∧
      (p '_' = false → ¬ RunsOn p (run p t).2 ∧ (run p t).1 = s.filter p) := by
  fun_induction run p t with
  | case1 => exact ⟨[], rfl, .nil, fun _ => ⟨nofun, rfl⟩⟩
  | case2 c t hc cs rest heq ih =>
    obtain ⟨s, ht, hs, hend⟩ := ih
    rw [heq] at ht hend
    refine ⟨'_' :: c :: s, by rw [ht]; rfl, .marked hc hs, fun hmark => ⟨(hend hmark).1, ?_⟩⟩
    rw [List.filter_cons_of_neg (by simp [hmark]), List.filter_cons_of_pos hc, ← (hend hmark).2]
  | case3 c t hc =>
    refine ⟨[], rfl, .nil, fun hmark => ⟨fun h => ?_, rfl⟩⟩
    cases h with
    | plain hmark' => exact nomatch hmark.symm.trans hmark'
    | marked hc' => exact hc hc'
  | case4 c t _ hc cs rest heq ih =>
    obtain ⟨s, ht, hs, hend⟩ := ih
    rw [heq] at ht hend
    refine ⟨c :: s, by rw [ht]; rfl, .plain hc hs, fun hmark => ⟨(hend hmark).1, ?_⟩⟩
    rw [List.filter_cons_of_pos hc, ← (hend hmark).2]
  | case5 c t hnone hc =>
    refine ⟨[], rfl, .nil, fun _ => ⟨fun h => ?_, rfl⟩⟩
    cases h with
    | plain hc' => exact hc hc'
    | marked _ => exact hnone _ _ rfl rfl

theorem run_cons (hmark : p '_' = false) {c : Char} (hc : p c = true) (t : Text) :
    run p (c :: t) = (c :: (run p t).1, (run p t).2) := by
  rw [run.eq_def]
  split
  · next heq => exact nomatch heq
  · next heq =>
    rw [(List.cons.inj heq).1] at hc
    exact nomatch hmark.symm.trans hc
  · next heq =>
    obtain ⟨rfl, rfl⟩ := List.cons.inj heq
    rw [if_pos hc]

theorem run_of_not_runsOn (h : ¬ RunsOn p rest) : run p rest = ([], rest) := by
  unfold run
  split
  · rfl
  · rw [if_neg fun hc => h (.marked hc)]
  · rw [if_neg fun hc => h (.plain hc)]

/-- Characters that can be a run are one, if no more of the class are behind them. -/
theorem run_append (hmark : p '_' = false) (hs : IsRun p s) (hrest : ¬ RunsOn p rest) :
    run p (s ++ rest) = (s.filter p, rest) := by
  induction hs with
  | nil => exact run_of_not_runsOn hrest
  | plain hc _ ih => rw [List.cons_append, run_cons hmark hc, ih, List.filter_cons_of_pos hc]
  | marked hc _ ih =>
    rw [List.cons_append, List.cons_append, run, if_pos hc, ih,
      List.filter_cons_of_neg (by simp [hmark]), List.filter_cons_of_pos hc]

theorem leaves_digits? (p : Char → Bool) : Leaves (digits? p) := by
  intro t cs rest h
  unfold digits? at h
  split at h
  · exact nomatch h
  · next c u =>
    rw [Option.ite_none_right_eq_some] at h
    obtain ⟨s, hs, -⟩ := run_eq p (c :: u)
    rw [Option.some.inj h.2] at hs
    exact ⟨s, hs.symm⟩

end Runs

/-! ## Points and exponents -/

/-- A part is empty or begins with its mark. -/
theorem part_cases (marks : List Char) (signs : Bool) (t : Text) :
    (part marks signs t).2 <:+ t ∧
      ∀ c ∈ (part marks signs t).1.head?, c ∈ marks := by
  unfold part
  split
  · exact ⟨List.suffix_rfl, fun c hc => absurd hc (Option.not_mem_none c)⟩
  · next mark rest =>
    split
    · next hmark =>
      split
      next sign u hsign =>
      have hu : u <:+ rest := by
        split at hsign
        · exact (Prod.mk.inj hsign).2 ▸ List.suffix_cons '+' _
        · exact (Prod.mk.inj hsign).2 ▸ List.suffix_cons '-' _
        · exact (Prod.mk.inj hsign).2 ▸ List.suffix_rfl
      cases hdigits : digits? Char.isDigit u with
      | some x =>
        have hx : x.2 <:+ u := leaves_digits? _ u x.1 x.2 hdigits
        exact ⟨(hx.trans hu).trans (List.suffix_cons mark rest),
          fun c hc => Option.some.inj hc ▸ hmark⟩
      | none => exact ⟨List.suffix_rfl, fun c hc => absurd hc (Option.not_mem_none c)⟩
    · exact ⟨List.suffix_rfl, fun c hc => absurd hc (Option.not_mem_none c)⟩

/-- A mark with digits behind it stands here, between them a sign where there may be one. -/
inductive BeginsPart (marks : List Char) (signs : Bool) : Text → Prop
  | bare {mark c : Char} {t : Text} (hmark : mark ∈ marks) (hc : c.isDigit = true) :
    BeginsPart marks signs (mark :: c :: t)
  | signed {mark sign c : Char} {t : Text} (hsigns : signs = true) (hmark : mark ∈ marks)
      (hsign : sign = '+' ∨ sign = '-') (hc : c.isDigit = true) :
    BeginsPart marks signs (mark :: sign :: c :: t)

theorem digits?_eq_none {t : Text} (h : ∀ c ∈ t.head?, c.isDigit = false) :
    digits? Char.isDigit t = none := by
  cases t with
  | nil => rfl
  | cons c t => rw [digits?, if_neg (by simp [h c rfl])]

theorem digits?_of_isDigit {c : Char} (hc : c.isDigit = true) (t : Text) :
    digits? Char.isDigit (c :: t)
      = some (c :: (run Char.isDigit t).1, (run Char.isDigit t).2) := by
  rw [digits?, if_pos hc, run_cons (by decide) hc]

section Parts

variable {marks : List Char} {signs : Bool} {t : Text}

theorem part_of_not_begins (h : ¬ BeginsPart marks signs t) : part marks signs t = ([], t) := by
  unfold part
  split
  · rfl
  · next mark rest =>
    by_cases hmark : mark ∈ marks
    · rw [if_pos hmark]
      split
      next sign u hsign =>
      have hnone : digits? Char.isDigit u = none := by
        refine digits?_eq_none fun c hc => Bool.eq_false_iff.2 fun hdigit => ?_
        obtain ⟨v, rfl⟩ := List.head?_eq_some_iff.1 hc
        split at hsign
        · obtain ⟨-, rfl⟩ := Prod.mk.inj hsign
          exact h (.signed rfl hmark (.inl rfl) hdigit)
        · obtain ⟨-, rfl⟩ := Prod.mk.inj hsign
          exact h (.signed rfl hmark (.inr rfl) hdigit)
        · obtain ⟨-, rfl⟩ := Prod.mk.inj hsign
          exact h (.bare hmark hdigit)
      rw [hnone]
    · rw [if_neg hmark]

theorem part_ne_nil (h : BeginsPart marks signs t) : (part marks signs t).1 ≠ [] := by
  cases h with
  | signed hsigns hmark hsign hc =>
    subst hsigns
    rcases hsign with rfl | rfl
    · rw [part, if_pos hmark, digits?_of_isDigit hc]
      exact List.cons_ne_nil _ _
    · rw [part, if_pos hmark, digits?_of_isDigit hc]
      exact List.cons_ne_nil _ _
  | @bare mark c u hmark hc =>
    have hsign : ∀ d, d.isDigit = false → c ≠ d := by
      rintro d hd rfl
      exact nomatch hd.symm.trans hc
    rw [part, if_pos hmark, digits?_of_isDigit hc]
    · exact List.cons_ne_nil _ _
    · exact fun _ _ heq => hsign '+' (by decide) (List.cons.inj heq).1
    · exact fun _ _ heq => hsign '-' (by decide) (List.cons.inj heq).1

theorem not_beginsPart_of_nil (h : (part marks signs t).1 = []) : ¬ BeginsPart marks signs t :=
  fun hbegins => part_ne_nil hbegins h

end Parts

/-! ## Decimal numbers -/

theorem digit?_of_isDigit {c : Char} (h : c.isDigit = true) :
    Text.digit? c = some (c.toNat - '0'.toNat) := by
  have hrange : 48 ≤ c.toNat ∧ c.toNat ≤ 57 := by
    simpa [Char.isDigit, UInt32.le_iff_toNat_le] using h
  have hzeros : Text.zeros = 48 :: Text.zeros.tail := rfl
  unfold Text.digit?
  rw [hzeros, List.find?_cons_of_pos (by simp only [Bool.and_eq_true, decide_eq_true_eq]; omega)]
  rfl

theorem digitText_of_isDigit {t : Text} (h : ∀ c ∈ t, c.isDigit = true) :
    Numeral.DigitText (t.map fun c => c.toNat - '0'.toNat) t := by
  unfold Numeral.DigitText
  rw [List.map_map]
  exact List.map_congr_left fun c hc => digit?_of_isDigit (h c hc)

/-- A literal that begins with a sign and digits has these digits in front of its point. -/
theorem length_whole_of_read? {negative : Bool} {sign whole after : Text} {l : Numeral.Literal}
    (hsign : SignText negative sign) (hwhole : ∀ c ∈ whole, c.isDigit = true)
    (hne : whole ≠ []) (hafter : Numeral.Apart Text.isDigit after)
    (h : Numeral.Literal.read? (sign ++ (whole ++ after)) = some l) :
    l.whole.length = whole.length := by
  have hdigits := digitText_of_isDigit hwhole
  have hbody : Numeral.Apart Numeral.isSign (whole ++ after) := by
    cases whole with
    | nil => exact absurd rfl hne
    | cons c whole =>
      exact Numeral.apart_cons.2 (Numeral.apart_cons.1 (Numeral.apart_of_digitText hdigits))
  rw [Numeral.Literal.read?, Numeral.spanSign_append hsign hbody] at h
  dsimp only at h
  rw [Numeral.spanDigits_append hdigits hafter] at h
  dsimp only at h
  rw [Option.ite_none_left_eq_some] at h
  obtain ⟨exponent, -, rfl⟩ := Option.map_eq_some_iff.1 h.2
  exact List.length_map _

/-- The digits in front of a point: a zero, or digits that do not begin with one. -/
def wholePart? : Text → Option (Text × Text)
  | '0' :: t => some (['0'], t)
  | t => digits? Char.isDigit t

/-- The value of a decimal number. -/
def numberOf (t : Text) : Except Fault Value :=
  match Numeral.Literal.read? t with
  | none => .error .malformed
  | some l =>
    match l.value with
    | .ok (.int i) => .ok (.integer i)
    | .ok (.float x) => .ok (.real x)
    | .error fault => .error (.numeral fault)

/-- A decimal number behind its sign. -/
def unsigned? (sign t : Text) : Option (Except Fault Value × Text) :=
  (wholePart? t).map fun (whole, t) =>
    let (fraction, t) := part ['.'] false t
    let (exponent, t) := part ['e', 'E'] true t
    (numberOf (sign ++ whole ++ fraction ++ exponent), t)

theorem exists_sign (t : Text) : ∃ negative sign u, SignText negative sign ∧ t = sign ++ u ∧
    (sign = [] → Numeral.Apart Numeral.isSign u) := by
  cases t with
  | nil => exact ⟨false, [], [], .bare, rfl, fun _ => Numeral.apart_nil _⟩
  | cons c u =>
    by_cases hminus : c = '-'
    · exact ⟨true, ['-'], u, .minus, by rw [hminus]; rfl, nofun⟩
    · by_cases hplus : c = '+'
      · exact ⟨false, ['+'], u, .plus, by rw [hplus]; rfl, nofun⟩
      · refine ⟨false, [], c :: u, .bare, rfl, fun _ => Numeral.apart_cons.2 ?_⟩
        simp [Numeral.isSign, hminus, hplus]

theorem decimal?_eq {negative : Bool} {sign u : Text} (hsign : SignText negative sign)
    (hu : sign = [] → Numeral.Apart Numeral.isSign u) :
    decimal? (sign ++ u) = unsigned? sign u := by
  cases hsign with
  | plus => rfl
  | minus => rfl
  | bare =>
    have hu := hu rfl
    rw [List.nil_append]
    unfold decimal?
    split
    next sign u' heq =>
    split at heq
    · exact absurd (Numeral.apart_cons.1 hu) (by decide)
    · exact absurd (Numeral.apart_cons.1 hu) (by decide)
    · obtain ⟨rfl, rfl⟩ := Prod.mk.inj heq
      rfl

/-- The digits in front of a point are a zero, or digits that do not begin with one and go on as far
as they can. -/
theorem wholePart?_cases {t whole rest : Text} (h : wholePart? t = some (whole, rest)) :
    (whole = ['0'] ∧ t = '0' :: rest) ∨
      ∃ c s, t = c :: s ++ rest ∧ c.isDigit = true ∧ c ≠ '0' ∧ IsRun Char.isDigit s ∧
        ¬ RunsOn Char.isDigit rest ∧ whole = (c :: s).filter Char.isDigit := by
  unfold wholePart? at h
  split at h
  · obtain ⟨rfl, rfl⟩ := Prod.mk.inj (Option.some.inj h)
    exact .inl ⟨rfl, rfl⟩
  · next hzero =>
    cases t with
    | nil => exact nomatch h
    | cons c u =>
      unfold digits? at h
      rw [Option.ite_none_right_eq_some] at h
      obtain ⟨hc, h⟩ := h
      obtain ⟨s, hs, hrun, hend⟩ := run_eq Char.isDigit u
      obtain ⟨hrest, hfilter⟩ := hend (by decide)
      rw [run_cons (by decide) hc] at h
      obtain ⟨rfl, rfl⟩ := Prod.mk.inj (Option.some.inj h)
      refine .inr ⟨c, s, congrArg (c :: ·) hs, hc, ?_, hrun, hrest, ?_⟩
      · rintro rfl
        exact hzero u rfl
      · rw [List.filter_cons_of_pos hc, hfilter]

theorem leaves_wholePart? : Leaves wholePart? := by
  intro t whole rest h
  rcases wholePart?_cases h with ⟨-, rfl⟩ | ⟨c, s, rfl, -⟩
  · exact List.suffix_cons '0' rest
  · exact List.suffix_append (c :: s) rest

/-- Digits that do not begin with a zero are the digits in front of a point as far as they go. -/
theorem wholePart?_append {c : Char} {s rest : Text} (hc : c.isDigit = true) (hzero : c ≠ '0')
    (hs : IsRun Char.isDigit s) (hrest : ¬ RunsOn Char.isDigit rest) :
    wholePart? (c :: s ++ rest) = some ((c :: s).filter Char.isDigit, rest) := by
  rw [← run_append (by decide) (.plain hc hs) hrest, List.cons_append]
  unfold wholePart?
  split
  · next heq => exact absurd (List.cons.inj heq).1 hzero
  · rw [digits?, if_pos hc]

theorem fault_of_numberOf {t : Text} {fault : Numeral.Fault}
    (h : numberOf t = .error (.numeral fault)) :
    ∃ l, Numeral.Literal.read? t = some l ∧ fault = .tooLongToRead l.whole.length ∧
      l.isInteger = true ∧ Numeral.maxDigits < l.whole.length := by
  unfold numberOf at h
  split at h
  · exact nomatch h
  · next l hread =>
    refine ⟨l, hread, ?_⟩
    rw [Numeral.Literal.value_eq] at h
    split at h
    · exact nomatch h
    · exact nomatch h
    · next fault' hvalue =>
      rw [← Fault.numeral.inj (Except.error.inj h)]
      split at hvalue
      · next hlong => exact ⟨(Except.error.inj hvalue).symm, hlong⟩
      · exact nomatch hvalue

section Numbers

variable {negative : Bool} {sign whole point power : Text} {fault : Numeral.Fault}

/-- A decimal number is too long if it has neither point nor exponent, and too many digits. -/
theorem numberOf_eq_error_iff (hsign : SignText negative sign)
    (hwhole : ∀ c ∈ whole, c.isDigit = true) (hne : whole ≠ [])
    (hpoint : ∀ c ∈ point.head?, c ∈ ['.']) (hpower : ∀ c ∈ power.head?, c ∈ ['e', 'E']) :
    numberOf (sign ++ (whole ++ (point ++ power))) = .error (.numeral fault) ↔
      point = [] ∧ power = [] ∧ Numeral.maxDigits < whole.length ∧
        fault = .tooLongToRead whole.length := by
  have hdigits := digitText_of_isDigit hwhole
  constructor
  · intro h
    obtain ⟨l, hread, rfl, hint, hlong⟩ := fault_of_numberOf h
    have hpointMark : ∀ c ∈ ['.'], Numeral.isSign c = false ∧ Text.isDigit c = false :=
      List.forall_mem_singleton.2 ⟨by decide, by decide⟩
    have hpowerMark : ∀ c ∈ ['e', 'E'], Numeral.isSign c = false ∧ Text.isDigit c = false :=
      List.forall_mem_cons.2
        ⟨⟨by decide, by decide⟩, List.forall_mem_singleton.2 ⟨by decide, by decide⟩⟩
    obtain rfl : point = [] :=
      Numeral.Literal.eq_nil_of_isInteger hread hint (by simp +contextual) hpoint hpointMark
    obtain rfl : power = [] :=
      Numeral.Literal.eq_nil_of_isInteger hread hint (by simp +contextual) hpower hpowerMark
    have hlength := length_whole_of_read? hsign hwhole hne (Numeral.apart_nil _) hread
    exact ⟨rfl, rfl, hlength ▸ hlong, hlength ▸ rfl⟩
  · rintro ⟨rfl, rfl, hlong, rfl⟩
    have hread := Numeral.Literal.read?_of_digits hsign hdigits (by simpa using hne)
    rw [List.append_nil, List.append_nil, numberOf, hread]
    dsimp only
    rw [Numeral.Literal.value_eq, if_pos ⟨rfl, by simpa using hlong⟩, List.length_map]

end Numbers

/-- What stands behind digits does not go on with them: there is no further digit, and neither a
point nor an exponent. -/
structure Ended (rest : Text) : Prop where
  digits : ¬ RunsOn Char.isDigit rest
  point : ¬ BeginsPart ['.'] false rest
  power : ¬ BeginsPart ['e', 'E'] true rest

/-- A decimal integer of so many digits, which are too many, stands at the front of the text: a sign
or none, and digits, not a zero first, with single underscores in front of some of the others. -/
inductive BeginsOverlong : Text → Nat → Prop
  | mk {negative : Bool} {sign : Text} {c : Char} {s rest : Text}
      (hsign : SignText negative sign) (hc : c.isDigit = true) (hzero : c ≠ '0')
      (hs : IsRun Char.isDigit s) (hrest : Ended rest)
      (hlong : Numeral.maxDigits < ((c :: s).filter Char.isDigit).length) :
    BeginsOverlong (sign ++ (c :: s ++ rest)) ((c :: s).filter Char.isDigit).length

theorem filter_ne_nil {c : Char} (hc : c.isDigit = true) (s : Text) :
    (c :: s).filter Char.isDigit ≠ [] := by
  rw [List.filter_cons_of_pos hc]
  exact List.cons_ne_nil _ _

theorem unsigned?_of_overlong {negative : Bool} {sign : Text} {c : Char} {s rest : Text}
    (hsign : SignText negative sign) (hc : c.isDigit = true) (hzero : c ≠ '0')
    (hs : IsRun Char.isDigit s) (hrest : Ended rest)
    (hlong : Numeral.maxDigits < ((c :: s).filter Char.isDigit).length) :
    unsigned? sign (c :: s ++ rest)
      = some (.error (.numeral (.tooLongToRead ((c :: s).filter Char.isDigit).length)), rest) := by
  have hdigit : ∀ d ∈ (c :: s).filter Char.isDigit, d.isDigit = true :=
    fun d hd => (List.mem_filter.1 hd).2
  have hnumber : numberOf (sign ++ ((c :: s).filter Char.isDigit ++ ([] ++ [])))
      = .error (.numeral (.tooLongToRead ((c :: s).filter Char.isDigit).length)) :=
    (numberOf_eq_error_iff hsign hdigit (filter_ne_nil hc s) (by simp) (by simp)).2
      ⟨rfl, rfl, hlong, rfl⟩
  rw [← List.append_assoc, ← List.append_assoc] at hnumber
  rw [unsigned?, wholePart?_append hc hzero hs hrest.digits, Option.map_some]
  dsimp only
  rw [part_of_not_begins hrest.point]
  dsimp only
  rw [part_of_not_begins hrest.power]
  dsimp only
  rw [hnumber]

theorem overlong_of_unsigned? {negative : Bool} {sign t rest : Text} {fault : Numeral.Fault}
    (hsign : SignText negative sign)
    (h : unsigned? sign t = some (.error (.numeral fault), rest)) :
    ∃ digits, BeginsOverlong (sign ++ t) digits ∧ fault = .tooLongToRead digits := by
  unfold unsigned? at h
  obtain ⟨⟨whole, u⟩, hwhole, heq⟩ := Option.map_eq_some_iff.1 h
  obtain ⟨hv, -⟩ := Prod.mk.inj heq
  rw [List.append_assoc, List.append_assoc] at hv
  have hparts (hdigits : ∀ c ∈ whole, c.isDigit = true) (hne : whole ≠ []) :=
    (numberOf_eq_error_iff hsign hdigits hne (part_cases ['.'] false u).2
      (part_cases ['e', 'E'] true (part ['.'] false u).2).2).1 hv
  rcases wholePart?_cases hwhole with ⟨rfl, -⟩ | ⟨c, s, rfl, hc, hzero, hs, hrest, rfl⟩
  · obtain ⟨-, -, hlong, -⟩ := hparts (List.forall_mem_singleton.2 rfl) (List.cons_ne_nil _ _)
    exact absurd hlong (by decide)
  · obtain ⟨hpoint, hpower, hlong, rfl⟩ := hparts (fun c hc => (List.mem_filter.1 hc).2)
      (filter_ne_nil hc s)
    have hnoPoint := not_beginsPart_of_nil hpoint
    rw [part_of_not_begins hnoPoint] at hpower
    exact ⟨_, .mk hsign hc hzero hs ⟨hrest, hnoPoint, not_beginsPart_of_nil hpower⟩ hlong, rfl⟩

theorem leaves_decimal? : Leaves decimal? := by
  intro t v rest h
  obtain ⟨negative, sign, u, hsign, rfl, hu⟩ := exists_sign t
  rw [decimal?_eq hsign hu] at h
  unfold unsigned? at h
  obtain ⟨⟨whole, w⟩, hwhole, heq⟩ := Option.map_eq_some_iff.1 h
  have hpower : rest <:+ (part ['.'] false w).2 :=
    (Prod.mk.inj heq).2 ▸ (part_cases ['e', 'E'] true (part ['.'] false w).2).1
  have hpoint : (part ['.'] false w).2 <:+ w := (part_cases ['.'] false w).1
  exact ((hpower.trans hpoint).trans (leaves_wholePart? u whole w hwhole)).trans
    (List.suffix_append sign u)

theorem leaves_marked? : Leaves marked? := by
  intro t v rest h
  unfold marked? at h
  split at h
  · next mark u =>
    dsimp only at h
    obtain ⟨⟨ds, w⟩, hw, heq⟩ := Option.map_eq_some_iff.1 h
    rw [← (Prod.mk.inj heq).2]
    exact (leaves_digits? _ _ _ _ hw).trans
      ((List.suffix_cons mark u).trans (List.suffix_cons '0' _))
  · exact nomatch h

theorem leaves_special? : Leaves special? := by
  intro t v rest h
  obtain ⟨sign, -, ht⟩ := Numeral.signText_spanSign t
  have hsign : (Numeral.spanSign t).2 <:+ t := ⟨sign, ht.symm⟩
  unfold special? at h
  dsimp only at h
  refine IsSuffix.trans ?_ hsign
  split at h
  · next u hu =>
    rw [← (Prod.mk.inj (Option.some.inj h)).2]
    exact suffix_of_after? hu
  · next u hu _ =>
    rw [← (Prod.mk.inj (Option.some.inj h)).2]
    exact suffix_of_after? hu
  · exact nomatch h

/-! ## Dates, times and numbers -/

theorem noField_of_isRun {s : Text} (hs : IsRun Char.isDigit s) {count : Nat}
    (hlength : count < s.length) {mark : Char} (hmark : mark.isDigit = false) (hne : mark ≠ '_')
    (rest : Text) : NoField count mark (s ++ rest) := by
  right
  rw [List.drop_append_of_le_length hlength.le, List.drop_eq_getElem_cons hlength]
  intro heq
  have hsame : s[count] = mark := Option.some.inj heq
  rcases hs.forall_mem _ (List.getElem_mem hlength) with hdigit | hunder
  · rw [hsame] at hdigit
    exact nomatch hmark.symm.trans hdigit
  · exact hne (hsame.symm.trans hunder)

namespace BeginsOverlong

variable {t : Text} {digits : Nat}

theorem noField (h : BeginsOverlong t digits) (count : Nat) (hcount : count < 4) {mark : Char}
    (hmark : mark.isDigit = false) (hne : mark ≠ '_') : NoField (count + 1) mark t := by
  have hmax : Numeral.maxDigits = 4300 := rfl
  cases h with
  | @mk _ _ c s rest hsign hc _ hs _ hlong =>
    have hlength := List.length_filter_le Char.isDigit (c :: s)
    cases hsign with
    | bare =>
      have hcount : count + 1 < (c :: s).length := by omega
      exact noField_of_isRun (.plain hc hs) hcount hmark hne rest
    | plus => exact .inl ⟨'+', List.mem_cons_self, by decide⟩
    | minus => exact .inl ⟨'-', List.mem_cons_self, by decide⟩

theorem marked? (h : BeginsOverlong t digits) : marked? t = none := by
  cases h with
  | mk hsign _ hzero _ _ _ =>
    cases hsign with
    | plus => rfl
    | minus => rfl
    | bare =>
      unfold Toml.marked?
      split
      · next heq => exact absurd (List.cons.inj heq).1 hzero
      · rfl

theorem decimal? (h : BeginsOverlong t digits) :
    ∃ rest, decimal? t = some (.error (.numeral (.tooLongToRead digits)), rest) := by
  cases h with
  | @mk _ _ c s rest hsign hc hzero hs hrest hlong =>
    have hbody : Numeral.Apart Numeral.isSign (c :: s ++ rest) :=
      Numeral.apart_cons.2
        (Numeral.isSign_of_isDigit (Option.isSome_of_eq_some (digit?_of_isDigit hc)))
    refine ⟨rest, ?_⟩
    rw [decimal?_eq hsign fun _ => hbody]
    exact unsigned?_of_overlong hsign hc hzero hs hrest hlong

theorem exists_cons (h : BeginsOverlong t digits) :
    ∃ c u, t = c :: u ∧ (Numeral.isSign c = true ∨ c.isDigit = true) := by
  cases h with
  | @mk _ _ c s rest hsign hc _ _ _ _ =>
    cases hsign with
    | bare => exact ⟨c, s ++ rest, rfl, .inr hc⟩
    | plus => exact ⟨'+', c :: s ++ rest, rfl, .inl rfl⟩
    | minus => exact ⟨'-', c :: s ++ rest, rfl, .inl rfl⟩

end BeginsOverlong

/-- A date, a time or a number is refused for its length exactly if it is a decimal integer of too
many digits. -/
theorem readScalar_eq_error_iff {t : Text} {fault : Numeral.Fault} :
    readScalar.run t = .error (.numeral fault) ↔
      ∃ digits, BeginsOverlong t digits ∧ fault = .tooLongToRead digits := by
  unfold readScalar
  simp only [StateT.run_bind, StateT.run_get, pure_bind]
  constructor
  · intro h
    split at h
    · split at h
      · exact nomatch h
      · exact nomatch h
    split at h
    · exact nomatch h
    split at h
    · exact nomatch h
    split at h
    · next v rest hdecimal =>
      cases v with
      | ok v => exact nomatch h
      | error f =>
        obtain rfl : f = .numeral fault := Except.error.inj h
        obtain ⟨negative, sign, u, hsign, rfl, hu⟩ := exists_sign t
        rw [decimal?_eq hsign hu] at hdecimal
        exact overlong_of_unsigned? hsign hdecimal
    · exact absurd h (Reader.run_ofOption_ne_numeral fault)
  · rintro ⟨digits, hbegins, rfl⟩
    obtain ⟨rest, hdecimal⟩ := hbegins.decimal?
    rw [date?_eq_none (hbegins.noField 3 (by decide) (by decide) (by decide)),
      time?_eq_none (hbegins.noField 1 (by decide) (by decide) (by decide)),
      hbegins.marked?, hdecimal]
    rfl

/-- Reading a date, a time or a number leaves an end of the text. -/
theorem suffix_of_readScalar {t rest : Text} {v : Value}
    (h : readScalar.run t = .ok (v, rest)) : rest <:+ t := by
  unfold readScalar at h
  simp only [StateT.run_bind, StateT.run_get, pure_bind] at h
  split at h
  · next u hdate =>
    split at h
    · exact nomatch h
    · rw [← (Prod.mk.inj (Except.ok.inj h)).2]
      exact (suffix_dropTime u).trans (leaves_date? _ _ _ hdate)
  split at h
  · next u htime => exact (Prod.mk.inj (Except.ok.inj h)).2 ▸ suffix_of_time? htime
  split at h
  · next u hmarked => exact (Prod.mk.inj (Except.ok.inj h)).2 ▸ leaves_marked? _ _ _ hmarked
  split at h
  · next v u hdecimal =>
    cases v with
    | ok v => exact (Prod.mk.inj (Except.ok.inj h)).2 ▸ leaves_decimal? _ _ _ hdecimal
    | error f => exact nomatch h
  · exact leaves_special? _ _ _ (Reader.run_ofOption_eq_ok_iff.1 h)

end Toml

end Proviso
