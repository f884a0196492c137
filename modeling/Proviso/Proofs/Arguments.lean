/-
  The spelling of integer arguments.

  `ArgumentText` says what an integer looks like that is given from outside: an optional sign and
  digits of any script, single underscores between some of them, with white space around all of it
  and no more digits than the bound allows. The reader trims, takes the sign and goes through the
  digits; so it accepts exactly the texts that spell an integer, and finds that integer
  (`argument?_eq_some_iff`). Trimming is no choice, since no digit and no sign is white space.
-/
import Mathlib.Data.List.Basic
import Mathlib.Data.List.TakeWhile
import Proviso.Numeral.Argument
import Proviso.Proofs.Literals

namespace Proviso

namespace Text

/-! ## Trimming -/

/-- No decimal digit of any script is white space. -/
theorem isSpace_of_digit? {c : Char} {d : Nat} (h : digit? c = some d) : isSpace c = false := by
  have hapart : ∀ z ∈ zeros, ∀ r ∈ spaceRanges, z + 9 < r.1 ∨ r.2 < z := by decide
  obtain ⟨z, hfind, -⟩ := Option.map_eq_some_iff.1 h
  have hrun := List.find?_some hfind
  have hz : z ∈ zeros := List.mem_of_find?_eq_some hfind
  rw [Bool.and_eq_true, decide_eq_true_iff, decide_eq_true_iff] at hrun
  unfold isSpace inRanges
  rw [List.any_eq_false]
  intro r hr
  have := hapart z hz r hr
  simp only [Bool.and_eq_true, decide_eq_true_eq, not_and]
  omega

/-- A text is what trimming leaves of it, with characters of the class around it. -/
theorem exists_trim (p : Char → Bool) (t : Text) :
    ∃ front back : Text, (∀ c ∈ front, p c = true) ∧ (∀ c ∈ back, p c = true) ∧
      t = front ++ (trim p t ++ back) := by
  refine ⟨t.takeWhile p, ((t.dropWhile p).reverse.takeWhile p).reverse, ?_, ?_, ?_⟩
  · exact fun c hc => List.mem_takeWhile_imp hc
  · exact fun c hc => List.mem_takeWhile_imp (List.mem_reverse.1 hc)
  · unfold trim dropEnd dropStart
    rw [← List.reverse_append, List.takeWhile_append_dropWhile, List.reverse_reverse,
      List.takeWhile_append_dropWhile]

/-- What neither begins nor ends with a character of the class is what trimming leaves. -/
theorem trim_append {p : Char → Bool} {front t back : Text} (hfront : ∀ c ∈ front, p c = true)
    (hback : ∀ c ∈ back, p c = true) (hne : t ≠ []) (hhead : ∀ c ∈ t.head?, p c = false)
    (hlast : ∀ c ∈ t.getLast?, p c = false) : trim p (front ++ (t ++ back)) = t := by
  have hkept : ∀ {s u : Text}, s ≠ [] → (∀ c ∈ s.head?, p c = false) →
      (s ++ u).dropWhile p = s ++ u := by
    intro s u hs hhead
    obtain ⟨c, s, rfl⟩ := List.exists_cons_of_ne_nil hs
    have hc : p c = false := hhead c rfl
    rw [List.cons_append]
    exact List.dropWhile_cons_of_neg (by simp [hc])
  have hreverse : ∀ c ∈ t.reverse.head?, p c = false := by
    rw [List.head?_reverse]
    exact hlast
  unfold trim dropEnd dropStart
  rw [List.dropWhile_append_of_pos hfront, hkept hne hhead, List.reverse_append,
    List.dropWhile_append_of_pos fun c hc => hback c (List.mem_reverse.1 hc),
    ← List.append_nil t.reverse, hkept (by simpa using hne) hreverse, List.append_nil,
    List.reverse_reverse]

end Text

namespace Numeral

/-! ## Digits in groups -/

/-- The texts of digits, given by their values, with single underscores between some of them. -/
inductive GroupedText : List Nat → Text → Prop where
  | last {c : Char} {d : Nat} (hd : Text.digit? c = some d) : GroupedText [d] [c]
  | next {c : Char} {d : Nat} {ds : List Nat} {t : Text} (hd : Text.digit? c = some d)
      (h : GroupedText ds t) : GroupedText (d :: ds) (c :: t)
  | mark {c : Char} {d : Nat} {ds : List Nat} {t : Text} (hd : Text.digit? c = some d)
      (h : GroupedText ds t) : GroupedText (d :: ds) (c :: '_' :: t)

/-- Digits in groups begin with a digit. -/
theorem GroupedText.exists_cons {ds : List Nat} {t : Text} (h : GroupedText ds t) :
    ∃ c d u, t = c :: u ∧ Text.digit? c = some d := by
  cases h with
  | last hd => exact ⟨_, _, _, rfl, hd⟩
  | next hd => exact ⟨_, _, _, rfl, hd⟩
  | mark hd => exact ⟨_, _, _, rfl, hd⟩

/-- Digits in groups end with a digit. -/
theorem GroupedText.getLast? {ds : List Nat} {t : Text} (h : GroupedText ds t) :
    ∀ c ∈ t.getLast?, ∃ d, Text.digit? c = some d := by
  have hbehind : ∀ {c : Char} {ds : List Nat} {t : Text}, GroupedText ds t →
      (c :: t).getLast? = t.getLast? := by
    intro c ds t h
    obtain ⟨c', d, u, rfl, -⟩ := h.exists_cons
    exact List.getLast?_cons_cons
  induction h with
  | last hd =>
    intro c hc
    rw [← Option.some.inj hc]
    exact ⟨_, hd⟩
  | next hd h ih => rwa [hbehind h]
  | mark hd h ih => rwa [List.getLast?_cons_cons, hbehind h]

theorem groupedText_of_groupedDigits? {ds : List Nat} {t : Text} (h : groupedDigits? t = some ds) :
    GroupedText ds t := by
  fun_induction groupedDigits? t generalizing ds with
  | case1 => exact nomatch h
  | case2 => exact nomatch h
  | case3 c d hd =>
    rw [← Option.some.inj h]
    exact .last hd
  | case4 c d hd t ih =>
    obtain ⟨ds', hds', rfl⟩ := Option.map_eq_some_iff.1 h
    exact .mark hd (ih hds')
  | case5 c d hd t _ _ ih =>
    obtain ⟨ds', hds', rfl⟩ := Option.map_eq_some_iff.1 h
    exact .next hd (ih hds')

/-- The reader of digits in groups accepts their texts and nothing else. -/
theorem groupedDigits?_eq_some_iff {ds : List Nat} {t : Text} :
    groupedDigits? t = some ds ↔ GroupedText ds t := by
  refine ⟨groupedText_of_groupedDigits?, fun h => ?_⟩
  induction h with
  | last hd =>
    unfold groupedDigits?
    rw [hd]
  | mark hd h ih =>
    unfold groupedDigits?
    rw [hd]
    show Option.map _ (groupedDigits? _) = _
    rw [ih]
    rfl
  | next hd h ih =>
    -- The rest begins with a digit, so it is neither empty nor an underscore.
    obtain ⟨c', d', u, rfl, hd'⟩ := h.exists_cons
    have hmark : c' ≠ '_' := by
      intro heq
      rw [heq, show Text.digit? '_' = none by decide] at hd'
      exact nomatch hd'
    unfold groupedDigits?
    rw [hd]
    dsimp only
    split
    · next heq => exact nomatch heq
    · next heq => exact absurd (List.cons.inj heq).1 hmark
    · rw [ih]
      rfl

/-! ## Arguments -/

/-- The texts that an integer can be given by: digits, not more of them than the bound allows,
behind an optional sign and with white space around. -/
inductive ArgumentText : Int → Text → Prop where
  | mk {negative : Bool} {ds : List Nat} {front sign digits back : Text}
      (hfront : ∀ c ∈ front, Text.isSpace c = true) (hsign : SignText negative sign)
      (hdigits : GroupedText ds digits) (hcount : ds.length ≤ maxDigits)
      (hback : ∀ c ∈ back, Text.isSpace c = true) :
      ArgumentText (signed negative (Text.numberOf ds)) (front ++ (sign ++ digits ++ back))

theorem argumentText_of_argument? {i : Int} {t : Text} (h : argument? t = some i) :
    ArgumentText i t := by
  obtain ⟨front, back, hfront, hback, ht⟩ := Text.exists_trim Text.isSpace t
  obtain ⟨sign, hsign, hbody⟩ := signText_spanSign (Text.trim Text.isSpace t)
  unfold argument? at h
  dsimp only at h
  split at h
  · exact nomatch h
  · next ds hds =>
    rw [Option.ite_none_right_eq_some] at h
    obtain ⟨hcount, hvalue⟩ := h
    rw [ht, hbody, ← Option.some.inj hvalue]
    exact .mk hfront hsign (groupedDigits?_eq_some_iff.1 hds) hcount hback

/-- A sign and digits in groups neither begin nor end with white space. -/
theorem trim_signed {negative : Bool} {ds : List Nat} {front sign digits back : Text}
    (hfront : ∀ c ∈ front, Text.isSpace c = true) (hsign : SignText negative sign)
    (hdigits : GroupedText ds digits) (hback : ∀ c ∈ back, Text.isSpace c = true) :
    Text.trim Text.isSpace (front ++ (sign ++ digits ++ back)) = sign ++ digits := by
  obtain ⟨c, d, u, rfl, hd⟩ := hdigits.exists_cons
  refine Text.trim_append hfront hback (by simp) ?_ ?_
  · intro c' hc'
    cases hsign with
    | bare =>
      rw [← Option.some.inj hc']
      exact Text.isSpace_of_digit? hd
    | plus =>
      rw [← Option.some.inj hc']
      decide
    | minus =>
      rw [← Option.some.inj hc']
      decide
  · intro c' hc'
    rw [List.getLast?_append_of_ne_nil _ (List.cons_ne_nil c u)] at hc'
    obtain ⟨d', hd'⟩ := hdigits.getLast? c' hc'
    exact Text.isSpace_of_digit? hd'

/-- The reader of arguments accepts the texts of integers and nothing else. -/
theorem argument?_eq_some_iff {i : Int} {t : Text} : argument? t = some i ↔ ArgumentText i t := by
  refine ⟨argumentText_of_argument?, fun h => ?_⟩
  cases h with
  | mk hfront hsign hdigits hcount hback =>
    obtain ⟨c, d, u, rfl, hd⟩ := hdigits.exists_cons
    have hbody : Apart isSign (c :: u) := by
      rw [apart_cons]
      exact isSign_of_isDigit (Option.isSome_of_eq_some hd)
    unfold argument?
    rw [trim_signed hfront hsign hdigits hback, spanSign_append hsign hbody]
    dsimp only
    rw [groupedDigits?_eq_some_iff.2 hdigits]
    dsimp only
    rw [if_pos hcount]

end Numeral

end Proviso
