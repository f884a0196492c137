/-
  What can be wrong with a document.

  Whatever a reader of a whole document finds, it finds in the document (`Reads`), since every reader
  leaves an end of the text that it is given, and this goes through one reader after another
  (`Reads.bind`). An integer with too many digits is found by the reader of numbers alone; a document
  in which one is found therefore holds one (`overlong_of_parse`).
-/
import Proviso.Proofs.Lines
import Proviso.Proofs.Overlong
import Proviso.Toml.Document

namespace Proviso.Toml

/-- The text holds an integer of so many digits, which are too many: digits, and underscores between
some of them. -/
def HoldsOverlong (t : Text) (digits : Nat) : Prop :=
  ∃ s, s <:+: t ∧ (∀ c ∈ s, c.isDigit = true ∨ c = '_') ∧
    (s.filter Char.isDigit).length = digits ∧ Numeral.maxDigits < digits

theorem HoldsOverlong.mono {t u : Text} {digits : Nat} (h : HoldsOverlong t digits)
    (htu : t <:+: u) : HoldsOverlong u digits := by
  obtain ⟨s, hs, h⟩ := h
  exact ⟨s, hs.trans htu, h⟩

theorem BeginsOverlong.holds {t : Text} {digits : Nat} (h : BeginsOverlong t digits) :
    HoldsOverlong t digits := by
  cases h with
  | @mk _ sign c s rest _ hc _ hs _ hlong =>
    have hmem : ∀ d ∈ c :: s, d.isDigit = true ∨ d = '_' := (IsRun.plain hc hs).forall_mem
    exact ⟨c :: s, ⟨sign, rest, List.append_assoc _ _ _⟩, hmem, rfl, hlong⟩

/-! ## What is found in a document -/

/-- From where it stands, the reader comes to an end of the document, unless the document is not
well formed, or holds an integer of too many digits. -/
def Reads {α : Type} (document : Text) (r : Reader α) (t : Text) : Prop :=
  match r.run t with
  | .ok (_, rest) => rest <:+ document
  | .error .malformed => True
  | .error (.numeral fault) =>
    ∃ digits, fault = .tooLongToRead digits ∧ HoldsOverlong document digits

namespace Reads

variable {α β : Type} {document t : Text}

theorem pure (a : α) (ht : t <:+ document) : Reads document (pure a) t := ht

theorem fail : Reads document (Reader.fail : Reader α) t := trivial

theorem bind {r : Reader α} {f : α → Reader β} (hr : Reads document r t)
    (hf : ∀ a rest, rest <:+ document → Reads document (f a) rest) :
    Reads document (r >>= f) t := by
  unfold Reads at hr ⊢
  rw [StateT.run_bind]
  cases hrun : r.run t with
  | ok x =>
    rw [hrun] at hr
    exact hf x.1 x.2 hr
  | error fault =>
    rw [hrun] at hr
    cases fault <;> exact hr

/-- What is left is looked at. -/
theorem get {f : Text → Reader β} (hf : Reads document (f t) t) :
    Reads document (MonadState.get >>= f) t := hf

/-- The reader goes on to a place further on. -/
theorem set {u : Text} {f : PUnit → Reader β} (hf : Reads document (f ⟨⟩) u) :
    Reads document (MonadStateOf.set u >>= f) t := hf

theorem modify {f : Text → Text} (h : f t <:+ document) :
    Reads document (modify f : Reader Unit) t := h

theorem ofOption {read : Text → Option (α × Text)} (hread : Leaves read) (ht : t <:+ document) :
    Reads document (Reader.ofOption read) t := by
  unfold Reads
  rw [Reader.run_ofOption]
  cases h : read t with
  | none => exact trivial
  | some x => exact (hread t x.1 x.2 h).trans ht

/-! ### Readers -/

theorem skipGap (ht : t <:+ document) : Reads document skipGap t :=
  modify ((List.dropWhile_suffix _).trans ht)

theorem skipComment (ht : t <:+ document) : Reads document skipComment t := by
  unfold Toml.skipComment
  refine get ?_
  split
  · next rest =>
    split
    · exact fail
    · exact (List.dropWhile_suffix _).trans ((List.suffix_cons '#' rest).trans ht)
  · exact ht

theorem skipBlock (fuel : Nat) : ∀ {t : Text}, t <:+ document →
    Reads document (skipBlock fuel) t := by
  induction fuel with
  | zero => exact fun ht => ht
  | succ fuel ih =>
    intro t ht
    unfold Toml.skipBlock
    refine (modify ((List.dropWhile_suffix _).trans ht)).bind fun _ u hu => get ?_
    split
    · exact (skipComment hu).bind fun _ rest hrest => ih hrest
    · exact hu

theorem skipBlocks (ht : t <:+ document) : Reads document skipBlocks t := get (skipBlock _ ht)

theorem expect (c : Char) (ht : t <:+ document) : Reads document (expect c) t := by
  refine ofOption (fun u a rest h => ?_) ht
  obtain ⟨v, hv, heq⟩ := Option.map_eq_some_iff.1 h
  exact (Prod.mk.inj heq).2 ▸ suffix_of_after? hv

theorem readKey (ht : t <:+ document) : Reads document readKey t :=
  ofOption (fun u => leaves_keyParts? _ u) ht

theorem readScalar (ht : t <:+ document) : Reads document readScalar t := by
  unfold Reads
  cases hrun : Toml.readScalar.run t with
  | ok x => exact (suffix_of_readScalar hrun).trans ht
  | error fault =>
    cases fault with
    | malformed => exact trivial
    | numeral fault =>
      obtain ⟨digits, hbegins, heq⟩ := readScalar_eq_error_iff.1 hrun
      exact ⟨digits, heq, hbegins.holds.mono ht.isInfix⟩

/-- By induction on the fuel: each of the three readers calls the others on less fuel. -/
theorem readers (document : Text) (fuel : Nat) :
    (∀ t, t <:+ document → Reads document (readValue fuel) t) ∧
    (∀ t, t <:+ document → Reads document (readItems fuel) t) ∧
    ∀ table complete t, t <:+ document → Reads document (readPairs fuel table complete) t := by
  induction fuel with
  | zero => exact ⟨fun _ _ => fail, fun _ _ => fail, fun _ _ _ _ => fail⟩
  | succ fuel ih =>
    obtain ⟨hvalue, hitems, hpairs⟩ := ih
    refine ⟨fun t ht => ?_, fun t ht => ?_, fun table complete t ht => ?_⟩
    · unfold readValue
      refine get ?_
      split
      · next u =>
        have hu : u <:+ document := (List.suffix_cons '[' u).trans ht
        refine set ((skipBlocks hu).bind fun _ v hv => ?_)
        exact (hitems v hv).bind fun items w hw => hw
      · next u =>
        have hu : u.dropWhile isGap <:+ document :=
          (List.dropWhile_suffix _).trans ((List.suffix_cons '{' u).trans ht)
        refine set (get ?_)
        split
        · next v heq => exact (List.suffix_cons '}' v).trans (heq ▸ hu)
        · exact (hpairs _ _ _ hu).bind fun table w hw => hw
      · exact (ofOption leaves_string? ht).bind fun s w hw => hw
      · exact (ofOption leaves_string? ht).bind fun s w hw => hw
      · split
        · next v hv => exact (suffix_of_after? hv).trans ht
        · next v hv _ => exact (suffix_of_after? hv).trans ht
        · exact readScalar ht
    · unfold readItems
      refine get ?_
      split
      · next u => exact (List.suffix_cons ']' u).trans ht
      · refine (hvalue t ht).bind fun v u hu => (skipBlocks hu).bind fun _ w hw => get ?_
        split
        · next x => exact (List.suffix_cons ']' x).trans hw
        · next x =>
          refine set ((skipBlocks ((List.suffix_cons ',' x).trans hw)).bind fun _ y hy => ?_)
          exact (hitems y hy).bind fun items z hz => hz
        · exact fail
    · unfold readPairs
      refine (readKey ht).bind fun key u hu => (expect '=' hu).bind fun _ v hv =>
        (skipGap hv).bind fun _ w hw => (hvalue w hw).bind fun value x hx => ?_
      split
      · exact fail
      · split
        · exact fail
        · refine (skipGap hx).bind fun _ y hy => get ?_
          split
          · next z => exact (List.suffix_cons '}' z).trans hy
          · next z =>
            refine set ((skipGap ((List.suffix_cons ',' z).trans hy)).bind fun _ z' hz' => ?_)
            exact hpairs _ _ z' hz'
          · exact fail

theorem readStatement (d : Document) (ht : t <:+ document) :
    Reads document d.readStatement t := by
  unfold Document.readStatement
  refine get ?_
  split
  · next u =>
    have hu : u.dropWhile isGap <:+ document := (List.dropWhile_suffix _).trans
      ((List.suffix_cons '[' u).trans ((List.suffix_cons '[' _).trans ht))
    refine set ((readKey hu).bind fun key v hv => ?_)
    split
    · exact fail
    · exact (expect ']' hv).bind fun _ w hw => (expect ']' hw).bind fun _ x hx => hx
  · next u _ =>
    have hu : u.dropWhile isGap <:+ document :=
      (List.dropWhile_suffix _).trans ((List.suffix_cons '[' u).trans ht)
    refine set ((readKey hu).bind fun key v hv => ?_)
    split
    · exact fail
    · exact (expect ']' hv).bind fun _ w hw => hw
  · refine (readKey ht).bind fun key v hv => (expect '=' hv).bind fun _ w hw =>
      (skipGap hw).bind fun _ x hx => ((readers document _).1 x hx).bind fun value y hy => ?_
    split
    · exact fail
    · exact hy

theorem readAll (fuel : Nat) : ∀ (d : Document) {t : Text}, t <:+ document →
    Reads document (Document.readAll fuel d) t := by
  induction fuel with
  | zero => exact fun d t ht => ht
  | succ fuel ih =>
    intro d t ht
    unfold Document.readAll
    refine (skipGap ht).bind fun _ u hu => get ?_
    split
    · exact hu
    · next v => exact set (ih d ((List.suffix_cons '\n' v).trans hu))
    · next c v _ =>
      extract_lets lineEnd
      have hend : ∀ (d : Document) (w : Text), w <:+ document →
          Reads document (lineEnd d) w := by
        refine fun d w hw => (skipGap hw).bind fun _ x hx => (skipComment hx).bind fun _ y hy =>
          get ?_
        split
        · exact hy
        · next z => exact set (ih d ((List.suffix_cons '\n' z).trans hy))
        · exact fail
      split
      · exact (pure d hu).bind hend
      · exact (readStatement d hu).bind hend

end Reads

/-! ## Documents -/

theorem prefix_of_joinReturns {s : Text} (hs : '\n' ∉ s) (t : Text)
    (h : s <+: Text.joinReturns t) : s <+: t := by
  fun_induction Text.joinReturns t generalizing s with
  | case1 => exact h
  | case2 t ih =>
    cases s with
    | nil => exact List.nil_prefix
    | cons c s => exact absurd ((List.cons_prefix_cons.1 h).1 ▸ List.mem_cons_self) hs
  | case3 c t _ ih =>
    cases s with
    | nil => exact List.nil_prefix
    | cons d s =>
      obtain ⟨rfl, hrest⟩ := List.cons_prefix_cons.1 h
      exact List.cons_prefix_cons.2 ⟨rfl, ih (fun hmem => hs (List.mem_cons_of_mem _ hmem)) hrest⟩

/-- What is found in a text without some of its carriage returns is found in the text. -/
theorem infix_of_joinReturns {s : Text} (hs : '\n' ∉ s) (t : Text)
    (h : s <:+: Text.joinReturns t) : s <:+: t := by
  fun_induction Text.joinReturns t with
  | case1 => exact h
  | case2 t ih =>
    rcases List.infix_cons_iff.1 h with hprefix | hinfix
    · cases s with
      | nil => exact List.nil_infix
      | cons c s => exact absurd ((List.cons_prefix_cons.1 hprefix).1 ▸ List.mem_cons_self) hs
    · exact ((ih hinfix).trans (List.suffix_cons '\n' t).isInfix).trans
        (List.suffix_cons '\r' _).isInfix
  | case3 c t hc ih =>
    rcases List.infix_cons_iff.1 h with hprefix | hinfix
    · have hcons : Text.joinReturns (c :: t) = c :: Text.joinReturns t := by
        rw [Text.joinReturns]
        exact hc
      exact (prefix_of_joinReturns hs (c :: t) (hcons ▸ hprefix)).isInfix
    · exact (ih hinfix).trans (List.suffix_cons c t).isInfix

/-- A document in which a number is too long holds a decimal integer of so many digits. -/
theorem overlong_of_parse {t : Text} {fault : Numeral.Fault}
    (h : Document.parse t = .error (.numeral fault)) :
    ∃ digits, fault = .tooLongToRead digits ∧ HoldsOverlong t digits := by
  have hreads : Reads (Text.joinReturns t)
      (Document.readAll ((Text.joinReturns t).length + 1) .empty) (Text.joinReturns t) :=
    Reads.readAll _ _ List.suffix_rfl
  unfold Document.parse at h
  dsimp only at h
  unfold Reads at hreads
  cases hrun : (Document.readAll ((Text.joinReturns t).length + 1) .empty).run
      (Text.joinReturns t) with
  | ok x =>
    rw [hrun] at h
    exact nomatch h
  | error f =>
    rw [hrun] at h hreads
    rw [Except.error.inj h] at hreads
    obtain ⟨digits, heq, s, hs, hdigits, hlength⟩ := hreads
    refine ⟨digits, heq, s, infix_of_joinReturns (fun hmem => ?_) t hs, hdigits, hlength⟩
    rcases hdigits _ hmem with hdigit | hmark
    · exact absurd hdigit (by decide)
    · exact absurd hmark (by decide)

end Proviso.Toml
