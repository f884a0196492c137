/-
  The decimal text of an integer, wherever it is given.

  The three places in which an integer can be given read it by rules of their own: an argument of
  the command line, a raw value that is a text, and a document. On the decimal text of an integer
  the rules agree: what comes out is that integer, unless the text is too long (`argument?_ofInt`,
  `integerOfText_ofInt`, `readValue_ofInt`). So a document that gives nothing but a seed is read
  (`parse_seedText`).

  Raw values are read by a validation. What is relied on of one is named (`Validation.Faithful`),
  and the lenient validation satisfies it (`faithful_lenient`).
-/
import Mathlib.Data.List.TakeWhile
import Proviso.Numeral.Argument
import Proviso.Proofs.Overlong
import Proviso.Settings.Lenient
import Proviso.Settings.Loading

namespace Proviso

/-! ## Digits in front -/

namespace Text

theorem ofNat_ne_nil (n : Nat) : ofNat n ≠ [] := Nat.toDigits_ne_nil

theorem isDigit_of_mem_ofNat {n : Nat} {c : Char} (h : c ∈ ofNat n) : c.isDigit = true := by
  obtain ⟨ds, htext, hds, -⟩ := exists_digits n
  have hdigit : ∀ d < 10, (Nat.digitChar d).isDigit = true := by decide
  rw [htext] at h
  obtain ⟨d, hd, rfl⟩ := List.mem_map.1 h
  exact hdigit d (hds d hd)

/-- No number but zero is written with a zero in front. -/
theorem head?_ofNat {n : Nat} (h : 0 < n) : (ofNat n).head? ≠ some '0' := by
  induction n using Nat.strongRecOn with
  | ind n ih =>
    unfold ofNat
    rw [Nat.toDigits_eq_if (by decide)]
    by_cases hn : n < 10
    · rw [if_pos hn, List.head?_cons]
      have hdigit : ∀ d < 10, 0 < d → Nat.digitChar d ≠ '0' := by decide
      exact fun heq => hdigit n hn h (Option.some.inj heq)
    · rw [if_neg hn]
      have hfront := ih (n / 10) (by omega) (by omega)
      exact (List.head?_append_of_ne_nil _ (ofNat_ne_nil (n / 10))).symm ▸ hfront

/-- What is behind the sign of an integer is a zero, or digits that do not begin with one. -/
theorem ofNat_cases (n : Nat) : ofNat n = ['0'] ∨ (ofNat n).head? ≠ some '0' := by
  rcases Nat.eq_zero_or_pos n with rfl | hpos
  · exact .inl rfl
  · exact .inr (head?_ofNat hpos)

theorem ofInt_ne_nil (i : Int) : ofInt i ≠ [] := by
  rw [ofInt_eq]
  split
  · exact List.cons_ne_nil _ _
  · exact ofNat_ne_nil _

theorem exists_signText (i : Int) :
    ∃ sign, Numeral.SignText (decide (i < 0)) sign ∧ ofInt i = sign ++ ofNat i.natAbs := by
  rw [ofInt_eq]
  by_cases h : i < 0
  · rw [if_pos h, decide_eq_true h]
    exact ⟨['-'], .minus, rfl⟩
  · rw [if_neg h, decide_eq_false h]
    exact ⟨[], .bare, rfl⟩

theorem trim_ofInt (i : Int) : trim isSpace (ofInt i) = ofInt i := by
  have hspace : ∀ c ∈ ofInt i, isSpace c = false := forall_mem_ofInt (by decide) (by decide) i
  have hkept : ∀ {t : Text}, (∀ c ∈ t, isSpace c = false) → t.dropWhile isSpace = t := by
    intro t ht
    cases t with
    | nil => rfl
    | cons c t => exact List.dropWhile_cons_of_neg (by simp [ht c List.mem_cons_self])
  unfold trim dropStart dropEnd
  rw [hkept hspace, hkept fun c hc => hspace c (List.mem_reverse.1 hc), List.reverse_reverse]

end Text

/-! ## Arguments -/

namespace Numeral

theorem groupedDigits?_digitChars {ds : List Nat} (h : ∀ d ∈ ds, d < 10) (hne : ds ≠ []) :
    groupedDigits? (ds.map Nat.digitChar) = some ds := by
  induction ds with
  | nil => exact absurd rfl hne
  | cons d ds ih =>
    rw [List.forall_mem_cons] at h
    rw [List.map_cons, groupedDigits?, Text.digit?_digitChar h.1]
    cases ds with
    | nil => rfl
    | cons d' ds =>
      have hmark : Nat.digitChar d' ≠ '_' := by
        have hdigit : ∀ d < 10, Nat.digitChar d ≠ '_' := by decide
        exact hdigit d' (h.2 d' List.mem_cons_self)
      have hrest := ih h.2 (List.cons_ne_nil _ _)
      rw [List.map_cons] at hrest ⊢
      dsimp only
      split
      · next heq => exact absurd heq (List.cons_ne_nil _ _)
      · next heq => exact absurd (List.cons.inj heq).1 hmark
      · rw [hrest]
        rfl

/-- The decimal text of an integer within the bound on digits is an argument for it. -/
theorem argument?_ofInt {i : Int} (h : fits i = true) : argument? (Text.ofInt i) = some i := by
  obtain ⟨ds, htext, hds, hvalue⟩ := Text.exists_digits i.natAbs
  have hne : ds ≠ [] := by
    rintro rfl
    exact Text.ofNat_ne_nil _ htext
  have hlength : ds.length ≤ maxDigits := by
    have hle := of_decide_eq_true h
    rwa [htext, List.length_map] at hle
  unfold argument?
  rw [Text.trim_ofInt, spanSign_ofInt, htext]
  dsimp only
  rw [groupedDigits?_digitChars hds hne]
  dsimp only
  rw [if_pos hlength, hvalue, signed_natAbs]

end Numeral

/-! ## Raw values -/

namespace Settings.Lenient

theorem takeWhile_ofNat (n : Nat) : (Text.ofNat n).takeWhile Char.isDigit = Text.ofNat n :=
  List.takeWhile_eq_self_iff.2 fun _ h => Text.isDigit_of_mem_ofNat h

theorem numberOf_ofNat (n : Nat) :
    Text.numberOf ((Text.ofNat n).map fun c => c.toNat - '0'.toNat) = n := by
  obtain ⟨ds, htext, hds, hvalue⟩ := Text.exists_digits n
  have hdigit : ∀ d < 10, (Nat.digitChar d).toNat - '0'.toNat = d := by decide
  have hmap : (ds.map Nat.digitChar).map (fun c => c.toNat - '0'.toNat) = ds := by
    rw [List.map_map]
    exact (List.map_congr_left fun d hd => hdigit d (hds d hd)).trans (List.map_id ds)
  rw [htext, hmap, hvalue]

theorem leadingZero_ofNat (n : Nat) :
    ((Text.ofNat n).isEmpty || ((Text.ofNat n).head? = some '0' && 1 < (Text.ofNat n).length))
      = false := by
  rcases Text.ofNat_cases n with hzero | hhead
  · rw [hzero]
    rfl
  · simp [Text.ofNat_ne_nil n, hhead]

theorem length_ofInt (i : Int) :
    (Text.ofInt i).length
      = (Text.ofNat i.natAbs).length + (if decide (i < 0) then 1 else 0) := by
  rw [Text.ofInt_eq]
  by_cases h : i < 0 <;> simp [h]

/-- The decimal text of an integer is plain: it is read, or it is too long, where a sign counts. -/
theorem plainInteger_ofInt (i : Int) :
    plainInteger (Text.ofInt i)
      = if Numeral.maxDigits < (Text.ofInt i).length then .error .oversizedInteger else .ok i := by
  unfold plainInteger
  split
  next negative t hsign =>
  have hparts : negative = decide (i < 0) ∧ t = Text.ofNat i.natAbs := by
    rw [Text.ofInt_eq] at hsign
    by_cases h : i < 0
    · rw [if_pos h] at hsign
      obtain ⟨rfl, rfl⟩ := Prod.mk.inj hsign
      exact ⟨(decide_eq_true h).symm, rfl⟩
    · rw [if_neg h] at hsign
      split at hsign
      · next u heq =>
        have hminus : '-' ∈ Text.ofNat i.natAbs := heq ▸ List.mem_cons_self
        exact absurd (Text.isDigit_of_mem_ofNat hminus) (by decide)
      · obtain ⟨rfl, rfl⟩ := Prod.mk.inj hsign
        exact ⟨(decide_eq_false h).symm, rfl⟩
  obtain ⟨rfl, rfl⟩ := hparts
  dsimp only
  rw [takeWhile_ofNat, leadingZero_ofNat, numberOf_ofNat, Numeral.signed_natAbs, length_ofInt]
  simp

/-- The decimal text of an integer gives the integer, or is too long, where a sign counts. -/
theorem integerOfText_ofInt (i : Int) :
    integerOfText (Text.ofInt i)
      = if Numeral.maxDigits < (Text.ofInt i).length then .error .oversizedInteger else .ok i := by
  have hplain := plainInteger_ofInt i
  unfold integerOfText
  by_cases h : Numeral.maxDigits < (Text.ofInt i).length
  · rw [if_pos h] at hplain ⊢
    rw [hplain]
  · rw [if_neg h] at hplain ⊢
    rw [hplain]

end Lenient

/-- What is relied on of a validation: the integers of documents are taken for themselves, and so is
the decimal text of an integer, unless it is rejected, as a text of too many digits is. -/
structure Validation.Faithful (v : Validation) : Prop where
  integer_ofInteger (i : Int) : v.integer (v.ofValue (.integer i)) = .ok (some i)
  integer_ofDecimal {i : Int} {taken : Option Int}
    (h : v.integer (v.ofText (Text.ofInt i)) = .ok taken) : taken = some i
  fits_of_integer {i : Int} {taken : Option Int}
    (h : v.integer (v.ofText (Text.ofInt i)) = .ok taken) : Numeral.fits i = true

theorem integer_lenient_ofInt {i : Int} {taken : Option Int}
    (h : Validation.lenient.integer (Validation.lenient.ofText (Text.ofInt i)) = .ok taken) :
    taken = some i ∧ Numeral.fits i = true := by
  change ((Lenient.integerOfText (Text.ofInt i)).map some).mapError Lenient.Reason.message
    = .ok taken at h
  rw [Lenient.integerOfText_ofInt] at h
  split at h
  · exact nomatch h
  · next hlength =>
    rw [Lenient.length_ofInt] at hlength
    exact ⟨(Except.ok.inj h).symm, decide_eq_true (by omega)⟩

theorem faithful_lenient : Validation.lenient.Faithful where
  integer_ofInteger _ := rfl
  integer_ofDecimal h := (integer_lenient_ofInt h).1
  fits_of_integer h := (integer_lenient_ofInt h).2

end Settings

/-! ## Documents -/

namespace Toml

/-- Digits in front of a line end are followed by digits or the line end. -/
theorem noField_of_digits {s : Text} (hs : ∀ c ∈ s, c.isDigit = true) (count : Nat) {mark : Char}
    (hmark : mark.isDigit = false) (hbreak : mark ≠ '\n') (rest : Text) :
    NoField count mark (s ++ '\n' :: rest) := by
  by_cases hlength : s.length < count
  · refine .inl ⟨'\n', ?_, by decide⟩
    rw [List.take_append, List.mem_append]
    obtain ⟨k, hk⟩ := Nat.exists_eq_add_of_lt hlength
    right
    rw [hk, show s.length + k + 1 - s.length = k + 1 by omega]
    exact List.mem_cons_self
  · right
    rw [List.drop_append_of_le_length (by omega)]
    cases hdrop : s.drop count with
    | nil =>
      intro heq
      exact hbreak (Option.some.inj heq).symm
    | cons c u =>
      intro heq
      have hmem : c ∈ s := List.mem_of_mem_drop (hdrop ▸ List.mem_cons_self)
      rw [← Option.some.inj heq, hs c hmem] at hmark
      exact nomatch hmark

/-- An integer in front of a line end does not begin a date or a time. -/
theorem noField_ofInt (i : Int) (count : Nat) {mark : Char} (hmark : mark.isDigit = false)
    (hbreak : mark ≠ '\n') (rest : Text) :
    NoField (count + 1) mark (Text.ofInt i ++ '\n' :: rest) := by
  rw [Text.ofInt_eq]
  split
  · exact .inl ⟨'-', List.mem_cons_self, by decide⟩
  · exact noField_of_digits (fun _ h => Text.isDigit_of_mem_ofNat h) _ hmark hbreak rest

theorem marked?_ofInt (i : Int) (rest : Text) : marked? (Text.ofInt i ++ '\n' :: rest) = none := by
  have hdigits : marked? (Text.ofNat i.natAbs ++ '\n' :: rest) = none := by
    rcases Text.ofNat_cases i.natAbs with hzero | hhead
    · rw [hzero]
      cases rest with
      | nil => rfl
      | cons c rest => simp [marked?, digits?]
    · unfold marked?
      split
      · next heq =>
        cases hdigits : Text.ofNat i.natAbs with
        | nil => exact absurd hdigits (Text.ofNat_ne_nil _)
        | cons c u =>
          rw [hdigits] at heq hhead
          exact absurd (congrArg some (List.cons.inj heq).1) hhead
      · rfl
  rw [Text.ofInt_eq]
  split
  · rfl
  · exact hdigits

theorem not_runsOn_break (rest : Text) : ¬ RunsOn Char.isDigit ('\n' :: rest) := by
  intro h
  cases h with
  | plain hc => exact absurd hc (by decide)

theorem wholePart?_ofNat (n : Nat) (rest : Text) :
    wholePart? (Text.ofNat n ++ '\n' :: rest) = some (Text.ofNat n, '\n' :: rest) := by
  rcases Text.ofNat_cases n with hzero | hhead
  · rw [hzero]
    rfl
  · have hdigit : ∀ c ∈ Text.ofNat n, c.isDigit = true := fun _ h => Text.isDigit_of_mem_ofNat h
    obtain ⟨c, u, htext⟩ := List.exists_cons_of_ne_nil (Text.ofNat_ne_nil n)
    rw [htext] at hhead hdigit ⊢
    have hread := wholePart?_append (hdigit c List.mem_cons_self) (fun h => hhead (h ▸ rfl))
      (.of_forall fun d hd => hdigit d (List.mem_cons_of_mem c hd)) (not_runsOn_break rest)
    rwa [List.filter_eq_self.2 hdigit] at hread

/-- The decimal text of an integer within the bound on digits is a value of a document. -/
theorem decimal?_ofInt {i : Int} (h : Numeral.fits i = true) (rest : Text) :
    decimal? (Text.ofInt i ++ '\n' :: rest) = some (.ok (.integer i), '\n' :: rest) := by
  obtain ⟨sign, hsign, htext⟩ := Text.exists_signText i
  have hbody : Numeral.Apart Numeral.isSign (Text.ofNat i.natAbs ++ '\n' :: rest) := by
    cases hdigits : Text.ofNat i.natAbs with
    | nil => exact Numeral.apart_cons.2 (by decide)
    | cons c u =>
      have hc : c.isDigit = true := Text.isDigit_of_mem_ofNat (hdigits ▸ List.mem_cons_self)
      exact Numeral.apart_cons.2
        (Numeral.isSign_of_isDigit (Option.isSome_of_eq_some (digit?_of_isDigit hc)))
  obtain ⟨l, hread, hvalue⟩ := Numeral.Literal.value_ofInt h
  have hnumber : numberOf (sign ++ Text.ofNat i.natAbs ++ [] ++ []) = .ok (.integer i) := by
    unfold numberOf
    rw [List.append_nil, List.append_nil, ← htext, hread]
    dsimp only
    rw [hvalue]
  rw [htext, List.append_assoc, decimal?_eq hsign fun _ => hbody]
  unfold unsigned?
  rw [wholePart?_ofNat, ← hnumber]
  rfl

theorem readScalar_ofInt {i : Int} (h : Numeral.fits i = true) (rest : Text) :
    readScalar.run (Text.ofInt i ++ '\n' :: rest) = .ok (.integer i, '\n' :: rest) := by
  unfold readScalar
  simp only [StateT.run_bind, StateT.run_get, pure_bind]
  rw [date?_eq_none (noField_ofInt i 3 (by decide) (by decide) rest)]
  dsimp only
  rw [time?_eq_none (noField_ofInt i 1 (by decide) (by decide) rest)]
  dsimp only
  rw [marked?_ofInt]
  dsimp only
  rw [decimal?_ofInt h]
  rfl

/-- A value that begins with a sign or a digit is not known by its first character. -/
theorem run_readValue_scalar {c : Char} (hc : Numeral.isSign c = true ∨ c.isDigit = true)
    (t : Text) (fuel : Nat) : (readValue (fuel + 1)).run (c :: t) = readScalar.run (c :: t) := by
  have hne : ∀ d, Numeral.isSign d = false → d.isDigit = false → c ≠ d := by
    rintro d hsign hdigit rfl
    rcases hc with hc | hc
    · exact nomatch hsign.symm.trans hc
    · exact nomatch hdigit.symm.trans hc
  have hword : ∀ d s, Numeral.isSign d = false → d.isDigit = false →
      Text.after? (d :: s) (c :: t) = none :=
    fun d s hsign hdigit => after?_eq_none fun h => hne d hsign hdigit (Option.some.inj h)
  unfold readValue
  simp only [StateT.run_bind, StateT.run_get, pure_bind]
  split
  · next heq => exact absurd (List.cons.inj heq).1 (hne _ (by decide) (by decide))
  · next heq => exact absurd (List.cons.inj heq).1 (hne _ (by decide) (by decide))
  · next heq => exact absurd (List.cons.inj heq).1 (hne _ (by decide) (by decide))
  · next heq => exact absurd (List.cons.inj heq).1 (hne _ (by decide) (by decide))
  · rw [hword _ _ (by decide) (by decide), hword _ _ (by decide) (by decide)]

theorem readValue_ofInt {i : Int} (h : Numeral.fits i = true) (rest : Text) (fuel : Nat) :
    (readValue (fuel + 1)).run (Text.ofInt i ++ '\n' :: rest)
      = .ok (.integer i, '\n' :: rest) := by
  rw [← readScalar_ofInt h rest]
  obtain ⟨c, t, htext⟩ := List.exists_cons_of_ne_nil (Text.ofInt_ne_nil i)
  have hfirst : Numeral.isSign c = true ∨ c.isDigit = true := by
    rcases Text.of_mem_ofInt (htext ▸ List.mem_cons_self) with rfl | ⟨d, hd, rfl⟩
    · exact .inl rfl
    · have hdigit : ∀ d < 10, (Nat.digitChar d).isDigit = true := by decide
      exact .inr (hdigit d hd)
  rw [htext]
  exact run_readValue_scalar hfirst _ fuel

/-! ### Statements -/

theorem Reader.run_bind_of_ok {α β : Type} {r : Reader α} {a : α} {t u : Text}
    (h : r.run t = .ok (a, u)) (f : α → Reader β) : (r >>= f).run t = (f a).run u := by
  rw [StateT.run_bind, h]
  rfl

theorem run_skipGap (t : Text) : skipGap.run t = .ok ((), t.dropWhile isGap) := rfl

theorem dropWhile_isGap_ofInt (i : Int) (rest : Text) :
    (Text.ofInt i ++ rest).dropWhile isGap = Text.ofInt i ++ rest := by
  have hgap : ∀ c ∈ Text.ofInt i, isGap c = false :=
    Text.forall_mem_ofInt (by decide) (by decide) i
  obtain ⟨c, t, htext⟩ := List.exists_cons_of_ne_nil (Text.ofInt_ne_nil i)
  rw [htext] at hgap ⊢
  exact List.dropWhile_cons_of_neg (by simp [hgap c List.mem_cons_self])

namespace Document

/-- A statement up to the end of its line. -/
theorem readAll_statement {d d' : Document} {c : Char} {t rest : Text} (fuel : Nat)
    (hc : c ≠ '\n' ∧ c ≠ '#' ∧ isGap c = false)
    (h : d.readStatement.run (c :: t) = .ok (d', '\n' :: rest)) :
    (readAll (fuel + 1) d).run (c :: t) = (readAll fuel d').run rest := by
  obtain ⟨hbreak, hmark, hgap⟩ := hc
  rw [readAll, Reader.run_bind_of_ok (run_skipGap _), List.dropWhile_cons_of_neg (by simp [hgap])]
  simp only [StateT.run_bind, StateT.run_get, pure_bind]
  rw [if_neg hmark, Reader.run_bind_of_ok h]
  rfl

/-- A key with a value. -/
theorem readStatement_pair {d d' : Document} {c : Char} {t u rest : Text} {key : List Text}
    {v : Value} (hc : c ≠ '[') (hkey : readKey.run (c :: t) = .ok (key, '=' :: u))
    (hvalue : ∀ fuel, (readValue (fuel + 1)).run (u.dropWhile isGap) = .ok (v, rest))
    (hassign : d.assign key v = some d') : d.readStatement.run (c :: t) = .ok (d', rest) := by
  have hexpect : (expect '=').run ('=' :: u) = .ok ((), u) := rfl
  unfold readStatement
  simp only [StateT.run_bind, StateT.run_get, pure_bind]
  split
  · next heq => exact absurd (List.cons.inj heq).1 hc
  · next heq => exact absurd (List.cons.inj heq).1 hc
  · rw [Reader.run_bind_of_ok hkey, Reader.run_bind_of_ok hexpect,
      Reader.run_bind_of_ok (run_skipGap u), Reader.run_bind_of_ok (hvalue _), hassign]
    rfl

end Document

end Toml

namespace Text

theorem joinReturns_of_not_mem {t : Text} (h : '\r' ∉ t) : joinReturns t = t := by
  induction t with
  | nil => rfl
  | cons c t ih =>
    rw [List.mem_cons, not_or] at h
    unfold joinReturns
    split
    · next heq => exact nomatch heq
    · next heq => exact absurd (List.cons.inj heq).1.symm h.1
    · next heq =>
      obtain ⟨rfl, rfl⟩ := List.cons.inj heq
      rw [ih h.2]

end Text

namespace Settings

/-- A document that gives nothing but a seed. -/
def seedText (i : Int) : Text :=
  "[conditionset]\n".toList ++ ("random_seed = ".toList ++ (Text.ofInt i ++ ['\n']))

theorem joinReturns_seedText (i : Int) : Text.joinReturns (seedText i) = seedText i := by
  have hint : ∀ c ∈ Text.ofInt i, c ≠ '\r' := Text.forall_mem_ofInt (by decide) (by decide) i
  refine Text.joinReturns_of_not_mem ?_
  unfold seedText
  simp only [List.mem_append, not_or]
  exact ⟨by decide, by decide, fun h => hint _ h rfl, by decide⟩

/-- Behind the header of the section, with a table in it. -/
def inSection (table : Toml.Table) : Toml.Document :=
  ⟨[(sectionKey, .table table)], [sectionKey], [[sectionKey]], [], []⟩

theorem readStatement_seed {i : Int} (h : Numeral.fits i = true) (rest : Text) :
    (inSection []).readStatement.run ("random_seed = ".toList ++ (Text.ofInt i ++ '\n' :: rest))
      = .ok (inSection [(Field.seed.key, .integer i)], '\n' :: rest) := by
  have hvalue := Toml.readValue_ofInt h rest
  rw [← Toml.dropWhile_isGap_ofInt] at hvalue
  -- The steps below compute with the text, which has to be kept from unfolding.
  generalize Text.ofInt i ++ '\n' :: rest = t at hvalue ⊢
  have hkey : Toml.readKey.run ("random_seed = ".toList ++ t)
      = .ok ([Field.seed.key], '=' :: ' ' :: t) := by rfl
  have hassign : (inSection []).assign [Field.seed.key] (.integer i)
      = some (inSection [(Field.seed.key, .integer i)]) := by rfl
  exact Toml.Document.readStatement_pair (by decide) hkey hvalue hassign

/-- A document with the decimal text of an integer within the bound on digits gives it as a seed. -/
theorem parse_seedText {i : Int} (h : Numeral.fits i = true) :
    Toml.Document.parse (seedText i)
      = .ok [(sectionKey, .table [(Field.seed.key, .integer i)])] := by
  have hheader (rest : Text) :
      (Toml.Document.readStatement .empty).run ("[conditionset]\n".toList ++ rest)
        = .ok (inSection [], '\n' :: rest) := by rfl
  have hread (fuel : Nat) : (Toml.Document.readAll (fuel + 3) .empty).run (seedText i)
      = .ok (inSection [(Field.seed.key, .integer i)], []) := by
    have hseed :=
      Toml.Document.readAll_statement (fuel + 1) (by decide) (readStatement_seed h [])
    exact (Toml.Document.readAll_statement (fuel + 2) (by decide) (hheader _)).trans hseed
  obtain ⟨fuel, hfuel⟩ : ∃ fuel, (seedText i).length + 1 = fuel + 3 := ⟨_, rfl⟩
  unfold Toml.Document.parse
  dsimp only
  rw [joinReturns_seedText, hfuel, hread]
  rfl

end Settings

end Proviso
