/-
  Tokens and their written forms.

  A token is `Writable` if it has a written form. Reading a line of written tokens gives the
  tokens back (`read_lineOf`), and every token that is read from any line is writable
  (`writable_of_mem_read`), so writing and reading again changes no line of tokens.
-/
import Proviso.Outline.Token
import Proviso.Proofs.Lines

namespace Proviso.Outline.Token

open List (Sublist)

/-- The token has a written form. -/
def Writable (t : Text) : Prop := (write? t).isSome = true

instance : DecidablePred Writable := fun _ => inferInstanceAs (Decidable (_ = true))

/-- The written form of a writable token. -/
def written (t : Text) : Text := (write? t).getD []

theorem write?_of_writable {t : Text} (h : Writable t) : write? t = some (written t) := by
  obtain ⟨w, hw⟩ := Option.isSome_iff_exists.1 h
  rw [written, hw]
  rfl

/-- A text that needs no quotes is not empty, begins with no quote and no `#`, and holds no
blank. -/
theorem needsQuotes_cons {c : Char} {cs : Text} :
    needsQuotes (c :: cs) = false ↔
      (∀ d ∈ c :: cs, Text.isBlank d = false) ∧ c ≠ '#' ∧ isQuote c = false := by
  unfold needsQuotes
  rw [Bool.or_eq_false_iff, Bool.or_eq_false_iff, List.any_eq_false, and_assoc]
  simp

theorem isQuote_iff {c : Char} : isQuote c = true ↔ c = '"' ∨ c = '\x60' := by
  simp [isQuote]

/-- A writable token is written as it is or between quotes that it does not hold. -/
theorem written_cases {t : Text} (h : Writable t) :
    (needsQuotes t = false ∧ written t = t) ∨
      ∃ q, isQuote q = true ∧ q ∉ t ∧ written t = q :: t ++ [q] := by
  unfold Writable at h
  unfold written
  unfold write? at h ⊢
  cases hn : needsQuotes t with
  | false => exact Or.inl ⟨rfl, by simp⟩
  | true =>
    right
    rw [hn] at h
    by_cases h1 : '"' ∈ t
    · by_cases h2 : '\x60' ∈ t
      · simp [h1, h2] at h
      · exact ⟨'\x60', by decide, h2, by simp [h1, h2]⟩
    · exact ⟨'"', by decide, h1, by simp [h1]⟩

theorem writable_of_bare {t : Text} (h : needsQuotes t = false) : Writable t := by
  simp [Writable, write?, h]

theorem writable_of_not_mem {t : Text} {q : Char} (hq : isQuote q = true) (h : q ∉ t) :
    Writable t := by
  unfold Writable write?
  rcases isQuote_iff.1 hq with rfl | rfl
  · simp only [h]
    split <;> simp
  · simp only [h]
    split
    · simp
    · split <;> simp

theorem written_of_bare {t : Text} (h : needsQuotes t = false) : written t = t := by
  simp [written, write?, h]

/-! ## Reading what was written -/

/-- What may stand behind a token without quotes: nothing, or a blank. -/
def Ends (rest : Text) : Prop := ∀ c ∈ rest.head?, Text.isBlank c = true

theorem readFrom_bare {cs rest : Text} (h : ∀ c ∈ cs, Text.isBlank c = false) (hr : Ends rest)
    (begun : Text) :
    readFrom (.bare begun) (cs ++ rest) = (begun.reverse ++ cs) :: readFrom .between rest := by
  induction cs generalizing begun with
  | nil =>
    rw [List.nil_append, List.append_nil]
    cases rest with
    | nil => rfl
    | cons c rest =>
      have hc : Text.isBlank c = true := hr c rfl
      rw [readFrom, readFrom, if_pos hc, if_pos hc]
  | cons c cs ih =>
    rw [List.forall_mem_cons] at h
    rw [List.cons_append, readFrom, if_neg (by simp [h.1]), ih h.2]
    simp

theorem readFrom_enclosed {q : Char} {cs : Text} (h : q ∉ cs) (begun rest : Text) :
    readFrom (.enclosed q begun) (cs ++ q :: rest)
      = (begun.reverse ++ cs) :: readFrom .between rest := by
  induction cs generalizing begun with
  | nil => rw [List.nil_append, readFrom, if_pos rfl, List.append_nil]
  | cons c cs ih =>
    rw [List.mem_cons, not_or] at h
    rw [List.cons_append, readFrom, if_neg (Ne.symm h.1), ih h.2]
    simp

theorem not_blank_of_isQuote {q : Char} (h : isQuote q = true) : Text.isBlank q = false := by
  rcases isQuote_iff.1 h with rfl | rfl <;> decide

theorem ne_hash_of_isQuote {q : Char} (h : isQuote q = true) : q ≠ '#' := by
  rcases isQuote_iff.1 h with rfl | rfl <;> decide

theorem readFrom_written {t rest : Text} (h : Writable t) (hr : Ends rest) :
    readFrom .between (written t ++ rest) = t :: readFrom .between rest := by
  rcases written_cases h with ⟨hbare, hw⟩ | ⟨q, hq, hmem, hw⟩
  · rw [hw]
    cases t with
    | nil => exact absurd hbare (by decide)
    | cons c cs =>
      obtain ⟨hb, hh, hqu⟩ := needsQuotes_cons.1 hbare
      rw [List.forall_mem_cons] at hb
      rw [List.cons_append, readFrom, if_neg (by simp [hb.1]), if_neg hh, if_neg (by simp [hqu]),
        readFrom_bare hb.2 hr]
      rfl
  · rw [hw, List.cons_append, List.cons_append, readFrom,
      if_neg (by simp [not_blank_of_isQuote hq]), if_neg (ne_hash_of_isQuote hq), if_pos hq,
      List.append_assoc, List.singleton_append, readFrom_enclosed hmem]
    rfl

theorem ends_space (rest : Text) : Ends (' ' :: rest) := by
  intro c hc
  rw [← Option.some.inj hc]
  decide

/-- The line of some tokens: their written forms with single spaces between them. -/
def lineOf (ts : List Text) : Text := Text.join [' '] (ts.map written)

theorem lineOf_cons (t u : Text) (us : List Text) :
    lineOf (t :: u :: us) = written t ++ ' ' :: lineOf (u :: us) := by
  simp [lineOf, Text.join]

/-- The tokens are found again in their line. -/
theorem read_lineOf {ts : List Text} (h : ∀ t ∈ ts, Writable t) : read (lineOf ts) = ts := by
  unfold read
  induction ts with
  | nil => rfl
  | cons t ts ih =>
    rw [List.forall_mem_cons] at h
    cases ts with
    | nil =>
      have hends : Ends [] := fun _ hc => absurd hc (by simp)
      have hread := readFrom_written h.1 hends
      rw [List.append_nil] at hread
      exact hread
    | cons u us =>
      rw [lineOf_cons, readFrom_written h.1 (ends_space _), readFrom, if_pos (by decide), ih h.2]

/-! ## Reading gives writable tokens -/

/-- What a reader has seen of a token is the beginning of a writable one. -/
def Place.Sound : Place → Prop
  | .between => True
  | .bare begun => needsQuotes begun.reverse = false
  | .enclosed quote begun => isQuote quote = true ∧ quote ∉ begun

theorem needsQuotes_snoc {t : Text} {c : Char} (h : needsQuotes t = false)
    (hc : Text.isBlank c = false) : needsQuotes (t ++ [c]) = false := by
  cases t with
  | nil => exact absurd h (by decide)
  | cons d ds =>
    obtain ⟨hb, hrest⟩ := needsQuotes_cons.1 h
    have hall : ∀ e ∈ (d :: ds) ++ [c], Text.isBlank e = false :=
      List.forall_mem_append.2 ⟨hb, by simpa using hc⟩
    exact needsQuotes_cons.2 ⟨hall, hrest⟩

theorem writable_of_mem_readFrom {place : Place} {line t : Text} (hp : place.Sound)
    (h : t ∈ readFrom place line) : Writable t := by
  fun_induction readFrom place line with
  | case1 => exact absurd h List.not_mem_nil
  | case2 c cs hb ih => exact ih trivial h
  | case3 => exact absurd h List.not_mem_nil
  | case4 c cs _ _ hq ih => exact ih ⟨hq, List.not_mem_nil⟩ h
  | case5 c cs hb hh hq ih =>
    refine ih (needsQuotes_cons.2 ⟨?_, hh, Bool.eq_false_iff.2 hq⟩) h
    simpa using hb
  | case6 begun =>
    rw [List.mem_singleton.1 h]
    exact writable_of_bare hp
  | case7 begun c cs hb ih =>
    rcases List.mem_cons.1 h with rfl | h
    · exact writable_of_bare hp
    · exact ih trivial h
  | case8 begun c cs hb ih =>
    refine ih ?_ h
    show needsQuotes (c :: begun).reverse = false
    rw [List.reverse_cons]
    exact needsQuotes_snoc hp (Bool.eq_false_iff.2 hb)
  | case9 quote begun =>
    rw [List.mem_singleton.1 h]
    exact writable_of_not_mem hp.1 (by simpa using hp.2)
  | case10 quote begun cs ih =>
    rcases List.mem_cons.1 h with rfl | h
    · exact writable_of_not_mem hp.1 (by simpa using hp.2)
    · exact ih trivial h
  | case11 quote begun c cs hc ih =>
    exact ih ⟨hp.1, by simp [Ne.symm hc, hp.2]⟩ h

/-- Every token of a line can be written. -/
theorem writable_of_mem_read {line t : Text} (h : t ∈ read line) : Writable t :=
  writable_of_mem_readFrom (show Place.Sound .between from trivial) h

/-- What a reader has seen of a token, in order. -/
def Place.seen : Place → Text
  | .between => []
  | .bare begun => begun.reverse
  | .enclosed _ begun => begun.reverse

theorem flatten_readFrom_sublist (place : Place) (line : Text) :
    Sublist (readFrom place line).flatten (place.seen ++ line) := by
  fun_induction readFrom place line with
  | case1 => exact List.nil_sublist _
  | case2 c cs _ ih => exact ih.trans (List.sublist_cons_self c cs)
  | case3 => exact List.nil_sublist _
  | case4 c cs _ _ _ ih => exact ih.trans (List.sublist_cons_self c cs)
  | case5 c cs _ _ _ ih => exact ih
  | case6 begun => simp [Place.seen]
  | case7 begun c cs _ ih =>
    rw [List.flatten_cons]
    exact (List.Sublist.refl _).append (ih.trans (List.sublist_cons_self c cs))
  | case8 begun c cs _ ih => simpa [Place.seen] using ih
  | case9 quote begun => simp [Place.seen]
  | case10 begun c cs ih =>
    rw [List.flatten_cons]
    exact (List.Sublist.refl _).append (ih.trans (List.sublist_cons_self c cs))
  | case11 quote begun c cs _ ih => simpa [Place.seen] using ih

/-- The tokens of a line, one after another, are the line with some characters left out. -/
theorem flatten_read_sublist (line : Text) : Sublist (read line).flatten line :=
  flatten_readFrom_sublist .between line

theorem readFrom_ne_nil (place : Place) (line : Text) (h : place ≠ .between) :
    readFrom place line ≠ [] := by
  fun_induction readFrom place line with
  | case1 | case2 | case3 | case4 | case5 => exact absurd rfl h
  | case6 | case7 | case9 | case10 => exact List.cons_ne_nil _ _
  | case8 _ _ _ _ ih | case11 _ _ _ _ _ ih => exact ih (by simp)

/-- A line that begins with the beginning of a token has a token. -/
theorem read_ne_nil {c : Char} {cs : Text} (hb : Text.isBlank c = false) (hh : c ≠ '#') :
    read (c :: cs) ≠ [] := by
  unfold read
  rw [readFrom, if_neg (by simp [hb]), if_neg hh]
  split
  · exact readFrom_ne_nil _ _ (by simp)
  · exact readFrom_ne_nil _ _ (by simp)

/-! ## The characters of a written line -/

/-- A written token begins with a character that begins a token. -/
theorem exists_cons_written {t : Text} (h : Writable t) :
    ∃ c cs, written t = c :: cs ∧ Text.isBlank c = false ∧ c ≠ '#' := by
  rcases written_cases h with ⟨hbare, hw⟩ | ⟨q, hq, -, hw⟩
  · cases t with
    | nil => exact absurd hbare (by decide)
    | cons c cs =>
      obtain ⟨hb, hh, -⟩ := needsQuotes_cons.1 hbare
      exact ⟨c, cs, hw, hb c List.mem_cons_self, hh⟩
  · exact ⟨q, t ++ [q], hw, not_blank_of_isQuote hq, ne_hash_of_isQuote hq⟩

theorem head?_lineOf {t : Text} (h : Writable t) (ts : List Text) :
    (lineOf (t :: ts)).head? = (written t).head? := by
  cases ts with
  | nil => rfl
  | cons u us =>
    obtain ⟨c, cs, hw, -⟩ := exists_cons_written h
    rw [lineOf_cons, hw]
    rfl

/-- A line of at least one token begins with a character that begins a token. -/
theorem exists_cons_lineOf {ts : List Text} (h : ∀ t ∈ ts, Writable t) (hne : ts ≠ []) :
    ∃ c cs, lineOf ts = c :: cs ∧ Text.isBlank c = false ∧ c ≠ '#' := by
  cases ts with
  | nil => exact absurd rfl hne
  | cons t ts =>
    obtain ⟨c, cs, hw, hc⟩ := exists_cons_written (h t List.mem_cons_self)
    have hhead := head?_lineOf (h t List.mem_cons_self) ts
    rw [hw, List.head?_cons] at hhead
    obtain ⟨rest, hrest⟩ := List.head?_eq_some_iff.1 hhead
    exact ⟨c, rest, hrest, hc⟩

theorem unbroken_written {t : Text} (h : Writable t) (ht : t.Unbroken) :
    (written t).Unbroken := by
  rcases written_cases h with ⟨-, hw⟩ | ⟨q, hq, -, hw⟩
  · rw [hw]; exact ht
  · have hq' : Text.Unbroken [q] :=
      Text.unbroken_of_not_blank fun c hc => by
        rw [List.mem_singleton.1 hc]; exact not_blank_of_isQuote hq
    rw [hw, ← List.singleton_append, Text.unbroken_append, Text.unbroken_append]
    exact ⟨⟨hq', ht⟩, hq'⟩

theorem unbroken_of_bare {t : Text} (h : needsQuotes t = false) : t.Unbroken := by
  cases t with
  | nil => exact Text.unbroken_nil
  | cons c cs => exact Text.unbroken_of_not_blank (needsQuotes_cons.1 h).1

/-- A text that needs no quotes can be written and read back as part of one line. -/
theorem sound_of_bare {t : Text} (h : needsQuotes t = false) : Writable t ∧ t.Unbroken :=
  ⟨writable_of_bare h, unbroken_of_bare h⟩

theorem unbroken_lineOf {ts : List Text} (h : ∀ t ∈ ts, Writable t ∧ t.Unbroken) :
    (lineOf ts).Unbroken := by
  induction ts with
  | nil => exact Text.unbroken_nil
  | cons t ts ih =>
    rw [List.forall_mem_cons] at h
    have ht := unbroken_written h.1.1 h.1.2
    cases ts with
    | nil => exact ht
    | cons u us =>
      rw [lineOf_cons, Text.unbroken_append, Text.unbroken_cons]
      exact ⟨ht, by decide, ih h.2⟩

end Proviso.Outline.Token
