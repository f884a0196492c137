/-
  What a command line is read as.

  `Marks` and `Takes` say how the words of a command line are told apart and taken up, without fuel
  and with a rule for each kind of word; a grammar reads what they say (`Grammar.parse_eq_ok_iff`),
  and a whole command line is read as the words in front of a command and those behind it
  (`parse_eq_some_iff`). A change of the values that no flag and no operand sees can be made in
  front of the words as well as behind them (`Grammar.Takes.change`).
-/
import Proviso.Command.Invocation
import Proviso.Proofs.Endings

namespace Proviso.Command

namespace Grammar

variable {σ : Type} (g : Grammar σ)

/-! ## Telling words apart -/

/-- What the words of a command line are. -/
inductive Marks : List Text → List (Word σ) → Prop where
  | nil : Marks [] []
  | dashes (rest : List Text) :
      Marks (['-', '-'] :: rest) ((['-', '-'], .dashes) :: rest.map (·, .plain))
  | word {word : Text} {mark : Mark σ} {rest : List Text} {marked : List (Word σ)}
      (hne : word ≠ ['-', '-']) (h : g.markWord word = .ok mark) (hrest : Marks rest marked) :
      Marks (word :: rest) ((word, mark) :: marked)

variable {g}

theorem Marks.of_eq_ok {words : List Text} {marked : List (Word σ)}
    (h : g.markWords words = .ok marked) : g.Marks words marked := by
  induction words generalizing marked with
  | nil =>
    rw [← Except.ok.inj h]
    exact .nil
  | cons word rest ih =>
    unfold markWords at h
    split at h
    · next hdashes =>
      subst hdashes
      rw [← Except.ok.inj h]
      exact .dashes rest
    · next hne =>
      split at h
      · exact nomatch h
      · next mark hmark =>
        cases hrest : g.markWords rest with
        | error stop =>
          rw [hrest] at h
          exact nomatch h
        | ok marked' =>
          rw [hrest] at h
          rw [← Except.ok.inj h]
          exact .word hne hmark (ih hrest)

theorem Marks.eq_ok {words : List Text} {marked : List (Word σ)} (h : g.Marks words marked) :
    g.markWords words = .ok marked := by
  induction h with
  | nil => rfl
  | dashes rest => rw [markWords, if_pos rfl]
  | word hne h hrest ih =>
    rw [markWords, if_neg hne, h, ih]
    rfl

/-! ## Taking up words -/

theorem helpWith_ne_ok {α : Type} (f : Flag σ) (short : Bool) (attached : Text) (a : α) :
    g.helpWith f short attached ≠ .ok a := by
  induction attached generalizing short with
  | nil =>
    intro h
    cases h
  | cons c cs ih =>
    unfold helpWith
    dsimp only
    split
    · intro h
      cases h
    · split
      · intro h
        cases h
      · exact ih short

/-- A flag with an argument stores it: the one that is attached to it, or the next word. -/
theorem takeFlag_eq_ok_iff {f : Flag σ} {name : Text} {attached : Option Text}
    {rest rest' : List (Word σ)} {value value' : σ} :
    g.takeFlag f name attached rest value = .ok (value', rest') ↔
      ∃ set argument, f.effect = .store set ∧ set argument value = .ok value' ∧
        ((∃ a, attached = some a ∧ argument = (if a = ['-', '-'] then none else some a) ∧
            rest = rest') ∨
          ∃ a, attached = none ∧ argument = some a ∧ rest = (a, .plain) :: rest') := by
  unfold takeFlag
  constructor
  · intro h
    split at h
    · exact nomatch h
    · exact absurd h (helpWith_ne_ok _ _ _ _)
    · next set a heffect =>
      split at h
      · next v hset =>
        obtain ⟨rfl, rfl⟩ := Prod.mk.inj (Except.ok.inj h)
        exact ⟨set, _, heffect, hset, .inl ⟨a, rfl, rfl, rfl⟩⟩
      · exact nomatch h
    · next set heffect =>
      split at h
      · next a more =>
        split at h
        · next v hset =>
          obtain ⟨rfl, rfl⟩ := Prod.mk.inj (Except.ok.inj h)
          exact ⟨set, _, heffect, hset, .inr ⟨a, rfl, rfl, rfl⟩⟩
        · exact nomatch h
      · exact nomatch h
  · rintro ⟨set, argument, heffect, hset, ⟨a, rfl, rfl, rfl⟩ | ⟨a, rfl, rfl, rfl⟩⟩
    · rw [heffect]
      dsimp only
      rw [hset]
    · rw [heffect]
      dsimp only
      rw [hset]

/-- The operand is one word, or one word and all that follows. -/
theorem takeOperand_eq_some_iff {words rest' : List (Word σ)} {value value' : σ} :
    g.takeOperand words value = .ok (some (value', rest')) ↔
      ∃ word rest first more, dropDashes words = (word, .plain) :: rest ∧
        g.operand.set first more value = .ok value' ∧
        if g.operand.takesAll then words.map (·.1) = first :: more ∧ rest' = []
        else first = word ∧ more = [] ∧ rest' = dropDashes rest := by
  unfold takeOperand
  dsimp only
  constructor
  · intro h
    split at h
    · next word rest hdashes =>
      split at h
      · next hall =>
        split at h
        · next first more hwords =>
          split at h
          · next hset =>
            obtain ⟨rfl, rfl⟩ := Prod.mk.inj (Option.some.inj (Except.ok.inj h))
            refine ⟨word, rest, first, more, hdashes, hset, ?_⟩
            rw [if_pos hall]
            exact ⟨hwords, rfl⟩
          · exact nomatch h
        · exact nomatch h
      · next hall =>
        split at h
        · next hset =>
          obtain ⟨rfl, rfl⟩ := Prod.mk.inj (Option.some.inj (Except.ok.inj h))
          refine ⟨word, rest, word, [], hdashes, hset, ?_⟩
          rw [if_neg hall]
          exact ⟨rfl, rfl, rfl⟩
        · exact nomatch h
    · exact nomatch h
  · rintro ⟨word, rest, first, more, hdashes, hset, hwords⟩
    rw [hdashes]
    dsimp only
    by_cases hall : g.operand.takesAll = true
    · rw [if_pos hall] at hwords ⊢
      rw [hwords.1, hwords.2]
      dsimp only
      rw [hset]
    · rw [if_neg hall] at hwords ⊢
      obtain ⟨rfl, rfl, rfl⟩ := hwords
      rw [hset]

/-- No operand comes next if there is no word that could be it. -/
theorem takeOperand_eq_none_iff {words : List (Word σ)} {value : σ} :
    g.takeOperand words value = .ok none ↔
      ∀ word rest, dropDashes words ≠ (word, .plain) :: rest := by
  unfold takeOperand
  dsimp only
  constructor
  · intro h word rest hdashes
    rw [hdashes] at h
    dsimp only at h
    split at h
    · split at h
      · split at h <;> exact nomatch h
      · next hwords =>
        rw [List.map_eq_nil_iff] at hwords
        rw [hwords] at hdashes
        exact nomatch hdashes
    · split at h <;> exact nomatch h
  · intro h
    split
    · next word rest hdashes => exact absurd hdashes (h word rest)
    · rfl

theorem length_dropDashes_le (words : List (Word σ)) :
    (dropDashes words).length ≤ words.length := by
  unfold dropDashes
  split
  · exact Nat.le_succ _
  · exact Nat.le_refl _

theorem length_of_takeOperand {words rest : List (Word σ)} {value value' : σ}
    (h : g.takeOperand words value = .ok (some (value', rest))) : rest.length < words.length := by
  obtain ⟨word, more, first, args, hdashes, -, hrest⟩ := takeOperand_eq_some_iff.1 h
  have hwords := length_dropDashes_le words
  rw [hdashes, List.length_cons] at hwords
  split at hrest
  · rw [hrest.2, List.length_nil]
    omega
  · have hmore := length_dropDashes_le more
    rw [hrest.2.2]
    omega

theorem subset_dropDashes (words : List (Word σ)) : dropDashes words ⊆ words := by
  unfold dropDashes
  split
  · exact List.subset_cons_self _ _
  · exact List.Subset.refl _

theorem subset_of_takeOperand {words rest : List (Word σ)} {value value' : σ}
    (h : g.takeOperand words value = .ok (some (value', rest))) : rest ⊆ words := by
  obtain ⟨word, more, first, args, hdashes, -, hrest⟩ := takeOperand_eq_some_iff.1 h
  have hmore := subset_dropDashes words
  rw [hdashes] at hmore
  split at hrest
  · rw [hrest.2]
    exact List.nil_subset _
  · rw [hrest.2.2]
    exact List.Subset.trans (subset_dropDashes more)
      (List.Subset.trans (List.subset_cons_self _ _) hmore)

theorem length_of_takeFlag {f : Flag σ} {name : Text} {attached : Option Text}
    {rest rest' : List (Word σ)} {value value' : σ}
    (h : g.takeFlag f name attached rest value = .ok (value', rest')) :
    rest'.length ≤ rest.length := by
  obtain ⟨-, -, -, -, ⟨-, -, -, rfl⟩ | ⟨-, -, -, rfl⟩⟩ := takeFlag_eq_ok_iff.1 h
  · exact Nat.le_refl _
  · exact Nat.le_succ _

theorem subset_of_takeFlag {f : Flag σ} {name : Text} {attached : Option Text}
    {rest rest' : List (Word σ)} {value value' : σ}
    (h : g.takeFlag f name attached rest value = .ok (value', rest')) : rest' ⊆ rest := by
  obtain ⟨-, -, -, -, ⟨-, -, -, rfl⟩ | ⟨-, -, -, rfl⟩⟩ := takeFlag_eq_ok_iff.1 h
  · exact List.Subset.refl _
  · exact List.subset_cons_self _ _

variable (g)

/-- The next word is not a flag, or there is none. -/
def AtOperand (words : List (Word σ)) : Prop := ∀ w ∈ words.head?, w.2.isFlag = false

/-- No operand is taken up in front of the words: it has been, or it cannot come next. -/
def Passes (words : List (Word σ)) (open_ : Bool) (value : σ) : Prop :=
  open_ = true → AtOperand words → g.takeOperand words value = .ok none

/-- What taking up words comes to, given whether the operand is still to come, the values so far and
the words left over so far. -/
inductive Takes : List (Word σ) → Bool → σ → List Text → Result σ → Prop where
  | operand {words rest : List (Word σ)} {value value' : σ} {leftOver : List Text} {r : Result σ}
      (hnext : AtOperand words) (h : g.takeOperand words value = .ok (some (value', rest)))
      (hrest : Takes rest false value' leftOver r) : Takes words true value leftOver r
  | stop {words : List (Word σ)} {open_ : Bool} {value : σ} {leftOver : List Text}
      (hpasses : g.Passes words open_ value) (hplain : ∀ w ∈ words, w.2.isFlag = false)
      (hend : (open_ && g.operand.required) = false) :
      Takes words open_ value leftOver ⟨value, leftOver ++ words.map (·.1)⟩
  | flag {plain rest rest' : List (Word σ)} {word name : Text} {f : Flag σ}
      {attached : Option Text} {open_ : Bool} {value value' : σ} {leftOver : List Text}
      {r : Result σ}
      (hpasses : g.Passes (plain ++ (word, .flag f name attached) :: rest) open_ value)
      (hplain : ∀ w ∈ plain, w.2.isFlag = false)
      (h : g.takeFlag f name attached rest value = .ok (value', rest'))
      (hrest : Takes rest' open_ value' (leftOver ++ plain.map (·.1)) r) :
      Takes (plain ++ (word, .flag f name attached) :: rest) open_ value leftOver r
  | unknown {plain rest : List (Word σ)} {word : Text} {open_ : Bool} {value : σ}
      {leftOver : List Text} {r : Result σ}
      (hpasses : g.Passes (plain ++ (word, .unknown) :: rest) open_ value)
      (hplain : ∀ w ∈ plain, w.2.isFlag = false)
      (hrest : Takes rest open_ value (leftOver ++ plain.map (·.1) ++ [word]) r) :
      Takes (plain ++ (word, .unknown) :: rest) open_ value leftOver r

variable {g}

/-- Words are split in front of the first flag. -/
theorem exists_plain (words : List (Word σ)) :
    ∃ plain rest, words = plain ++ rest ∧ (∀ w ∈ plain, w.2.isFlag = false) ∧
      ∀ w ∈ rest.head?, w.2.isFlag = true := by
  induction words with
  | nil => exact ⟨[], [], rfl, by simp, by simp⟩
  | cons w words ih =>
    by_cases hw : w.2.isFlag = true
    · exact ⟨[], w :: words, rfl, by simp, by simpa using hw⟩
    · obtain ⟨plain, rest, rfl, hplain, hrest⟩ := ih
      rw [Bool.not_eq_true] at hw
      exact ⟨w :: plain, rest, rfl, List.forall_mem_cons.2 ⟨hw, hplain⟩, hrest⟩

theorem takeWhile_plain {plain rest : List (Word σ)} (hplain : ∀ w ∈ plain, w.2.isFlag = false)
    (hrest : ∀ w ∈ rest.head?, w.2.isFlag = true) :
    (plain ++ rest).takeWhile (fun w => !w.2.isFlag) = plain := by
  have hstop : rest.takeWhile (fun w => !w.2.isFlag) = [] := by
    cases rest with
    | nil => rfl
    | cons w rest => simp [hrest w rfl]
  rw [List.takeWhile_append_of_pos fun w hw => by simp [hplain w hw], hstop, List.append_nil]

theorem atOperand_iff {words : List (Word σ)} :
    (!(words.takeWhile fun w => !w.2.isFlag).isEmpty || words.isEmpty) = true ↔
      AtOperand words := by
  cases words with
  | nil => simp [AtOperand]
  | cons w words => cases hw : w.2.isFlag <;> simp [AtOperand, hw]

/-- Whether and how the operand is taken up next. -/
def operandNext (g : Grammar σ) (words : List (Word σ)) (open_ : Bool) (value : σ) :
    Except Stop (Option (σ × List (Word σ))) :=
  if open_ && (!(words.takeWhile fun w => !w.2.isFlag).isEmpty || words.isEmpty) then
    g.takeOperand words value
  else .ok none

theorem operandNext_eq_none_iff {words : List (Word σ)} {open_ : Bool} {value : σ} :
    g.operandNext words open_ value = .ok none ↔ g.Passes words open_ value := by
  unfold operandNext Passes
  by_cases hopen : open_ = true
  · by_cases hat : AtOperand words
    · rw [if_pos (by rw [hopen, atOperand_iff.2 hat]; rfl)]
      exact ⟨fun h _ _ => h, fun h => h hopen hat⟩
    · rw [if_neg (by rw [hopen, Bool.true_and, atOperand_iff]; exact hat)]
      exact ⟨fun _ _ h => absurd h hat, fun _ => rfl⟩
  · rw [if_neg (by simp [hopen])]
    exact ⟨fun _ h => absurd h hopen, fun _ => rfl⟩

theorem operandNext_eq_some_iff {words rest : List (Word σ)} {open_ : Bool} {value value' : σ} :
    g.operandNext words open_ value = .ok (some (value', rest)) ↔
      open_ = true ∧ AtOperand words ∧ g.takeOperand words value = .ok (some (value', rest)) := by
  unfold operandNext
  by_cases hopen : open_ = true
  · by_cases hat : AtOperand words
    · rw [if_pos (by rw [hopen, atOperand_iff.2 hat]; rfl)]
      exact ⟨fun h => ⟨hopen, hat, h⟩, fun h => h.2.2⟩
    · rw [if_neg (by rw [hopen, Bool.true_and, atOperand_iff]; exact hat)]
      exact ⟨fun h => (nomatch h), fun h => absurd h.2.1 hat⟩
  · rw [if_neg (by simp [hopen])]
    exact ⟨fun h => (nomatch h), fun h => absurd h.1 hopen⟩

/-- Words are taken up from the front: the operand, or what stands in front of the next flag and the
flag. -/
theorem takeWords_succ (fuel : Nat) (plain rest : List (Word σ)) (open_ : Bool) (value : σ)
    (leftOver : List Text) :
    (∀ w ∈ plain, w.2.isFlag = false) → (∀ w ∈ rest.head?, w.2.isFlag = true) →
    g.takeWords (fuel + 1) (plain ++ rest) open_ value leftOver =
      match g.operandNext (plain ++ rest) open_ value with
      | .error stop => .error stop
      | .ok (some (value, rest)) => g.takeWords fuel rest false value leftOver
      | .ok none =>
        match rest with
        | [] =>
          if open_ && g.operand.required then
            g.refuse ("the following arguments are required: ".toList ++ g.operand.name)
          else .ok ⟨value, leftOver ++ plain.map (·.1)⟩
        | (_, .flag f name attached) :: rest =>
          match g.takeFlag f name attached rest value with
          | .error stop => .error stop
          | .ok (value, rest) => g.takeWords fuel rest open_ value (leftOver ++ plain.map (·.1))
        | (word, _) :: rest =>
          g.takeWords fuel rest open_ value (leftOver ++ plain.map (·.1) ++ [word]) := by
  intro hplain hrest
  have hwords := takeWhile_plain hplain hrest
  have hoperand : g.operandNext (plain ++ rest) open_ value =
      if open_ && (!plain.isEmpty || (plain ++ rest).isEmpty) then
        g.takeOperand (plain ++ rest) value
      else .ok none := by
    rw [operandNext, hwords]
  rw [takeWords]
  dsimp only
  rw [hwords, List.drop_left]
  exact hoperand ▸ rfl

theorem Takes.of_eq_ok {fuel : Nat} {words : List (Word σ)} {open_ : Bool} {value : σ}
    {leftOver : List Text} {r : Result σ} (hfuel : words.length < fuel)
    (h : g.takeWords fuel words open_ value leftOver = .ok r) :
    g.Takes words open_ value leftOver r := by
  induction fuel generalizing words open_ value leftOver with
  | zero => exact absurd hfuel (Nat.not_lt_zero _)
  | succ fuel ih =>
    obtain ⟨plain, rest, rfl, hplain, hrest⟩ := exists_plain words
    rw [List.length_append] at hfuel
    rw [takeWords_succ fuel _ _ _ _ _ hplain hrest] at h
    split at h
    · exact nomatch h
    · next value' rest' hoperand =>
      obtain ⟨rfl, hat, htake⟩ := operandNext_eq_some_iff.1 hoperand
      have hlength := length_of_takeOperand htake
      rw [List.length_append] at hlength
      exact .operand hat htake (ih (by omega) h)
    · next hoperand =>
      have hpasses := operandNext_eq_none_iff.1 hoperand
      split at h
      · split at h
        · exact nomatch h
        · next hend =>
          rw [← Except.ok.inj h]
          rw [List.append_nil] at hpasses ⊢
          exact .stop hpasses hplain (Bool.not_eq_true _ ▸ hend)
      · next word f name attached more =>
        split at h
        · exact nomatch h
        · next value' rest' htake =>
          have hlength := length_of_takeFlag htake
          rw [List.length_cons] at hfuel
          exact .flag hpasses hplain htake (ih (by omega) h)
      · next word mark more hmark =>
        have hflag : mark.isFlag = true := hrest _ rfl
        have hunknown : mark = .unknown := by
          cases mark with
          | plain => exact nomatch hflag
          | dashes => exact nomatch hflag
          | flag f name attached => exact absurd rfl (hmark f name attached)
          | unknown => rfl
        rw [List.length_cons] at hfuel
        subst hunknown
        exact .unknown hpasses hplain (ih (by omega) h)

theorem Takes.eq_ok {words : List (Word σ)} {open_ : Bool} {value : σ} {leftOver : List Text}
    {r : Result σ} (h : g.Takes words open_ value leftOver r) {fuel : Nat}
    (hfuel : words.length < fuel) : g.takeWords fuel words open_ value leftOver = .ok r := by
  induction h generalizing fuel with
  | @operand words rest value value' leftOver r hnext htake hrest ih =>
    obtain ⟨fuel, rfl⟩ := Nat.exists_eq_succ_of_ne_zero (Nat.ne_zero_of_lt hfuel)
    obtain ⟨plain, behind, rfl, hplain, hbehind⟩ := exists_plain words
    have hlength := length_of_takeOperand htake
    rw [takeWords_succ fuel _ _ _ _ _ hplain hbehind,
      operandNext_eq_some_iff.2 ⟨rfl, hnext, htake⟩]
    exact ih (by omega)
  | @stop words open_ value leftOver hpasses hplain hend =>
    obtain ⟨fuel, rfl⟩ := Nat.exists_eq_succ_of_ne_zero (Nat.ne_zero_of_lt hfuel)
    have hnone := operandNext_eq_none_iff.2 hpasses
    rw [← List.append_nil words] at hnone ⊢
    rw [takeWords_succ fuel _ _ _ _ _ hplain (by simp), hnone]
    dsimp only
    rw [hend, List.append_nil]
    rfl
  | @flag plain rest rest' word name f attached open_ value value' leftOver r hpasses hplain htake
      hrest ih =>
    obtain ⟨fuel, rfl⟩ := Nat.exists_eq_succ_of_ne_zero (Nat.ne_zero_of_lt hfuel)
    have hlength := length_of_takeFlag htake
    rw [List.length_append, List.length_cons] at hfuel
    rw [takeWords_succ fuel _ _ _ _ _ hplain (by simp [Mark.isFlag]),
      operandNext_eq_none_iff.2 hpasses]
    dsimp only
    rw [htake]
    exact ih (by omega)
  | @unknown plain rest word open_ value leftOver r hpasses hplain hrest ih =>
    obtain ⟨fuel, rfl⟩ := Nat.exists_eq_succ_of_ne_zero (Nat.ne_zero_of_lt hfuel)
    rw [List.length_append, List.length_cons] at hfuel
    rw [takeWords_succ fuel _ _ _ _ _ hplain (by simp [Mark.isFlag]),
      operandNext_eq_none_iff.2 hpasses]
    exact ih (by omega)

/-- What a grammar reads is what the words are and what taking them up comes to. -/
theorem parse_eq_ok_iff {words : List Text} {value : σ} {r : Result σ} :
    g.parse words value = .ok r ↔
      ∃ marked, g.Marks words marked ∧ g.Takes marked true value [] r := by
  unfold parse
  constructor
  · intro h
    split at h
    · exact nomatch h
    · next marked hmarked => exact ⟨marked, .of_eq_ok hmarked, .of_eq_ok (Nat.lt_succ_self _) h⟩
  · rintro ⟨marked, hmarks, htakes⟩
    rw [hmarks.eq_ok]
    exact htakes.eq_ok (Nat.lt_succ_self _)

/-! ## Flags in front of words -/

/-- A word that is not the one that ends the flags is plain, unknown, or one of the flags. -/
theorem markWord_cases {word : Text} {mark : Mark σ} (h : g.markWord word = .ok mark) :
    mark = .plain ∨ mark = .unknown ∨
      ∃ f name attached, f ∈ g.flags ∧ mark = .flag f name attached := by
  have hnamed : ∀ n ∈ g.named, n.2 ∈ g.flags := by
    intro n hn
    obtain ⟨f, hf, hn⟩ := List.mem_flatMap.1 hn
    obtain ⟨name, -, rfl⟩ := List.mem_map.1 hn
    exact hf
  have hflag : ∀ {name : Text} {f : Flag σ}, g.flag? name = some f → f ∈ g.flags := by
    intro name f hf
    obtain ⟨n, hn, rfl⟩ := Option.map_eq_some_iff.1 hf
    exact hnamed n (List.mem_of_find?_eq_some hn)
  have hreadings : ∀ r ∈ g.readings word,
      ∃ f name attached, f ∈ g.flags ∧ r.2 = .flag f name attached := by
    intro r hr
    unfold readings at hr
    split at hr
    · obtain ⟨⟨name, f⟩, hn, rfl⟩ := List.mem_map.1 hr
      exact ⟨f, name, _, hnamed _ (List.mem_of_mem_filter hn), rfl⟩
    · obtain ⟨⟨name, f⟩, hn, hr⟩ := List.mem_filterMap.1 hr
      dsimp only at hr
      split at hr
      · exact ⟨f, name, _, hnamed _ hn, by rw [← Option.some.inj hr]⟩
      · split at hr
        · exact ⟨f, name, _, hnamed _ hn, by rw [← Option.some.inj hr]⟩
        · exact nomatch hr
  unfold markWord at h
  dsimp only at h
  split at h
  · exact .inl (Except.ok.inj h).symm
  · split at h
    · next f hf => exact .inr (.inr ⟨f, _, _, hflag hf, (Except.ok.inj h).symm⟩)
    · split at h
      · exact .inl (Except.ok.inj h).symm
      · split at h
        · next f _ hf => exact .inr (.inr ⟨f, _, _, hflag hf, (Except.ok.inj h).symm⟩)
        · split at h
          · next name mark' hone =>
            obtain ⟨f, name, attached, hf, hmark⟩ := hreadings (name, mark') (by simp [hone])
            exact .inr (.inr ⟨f, name, attached, hf, (Except.ok.inj h).symm.trans hmark⟩)
          · split at h
            · exact .inl (Except.ok.inj h).symm
            · exact .inr (.inl (Except.ok.inj h).symm)
          · exact nomatch h

/-- The flags among the words are those of the grammar. -/
def Known (g : Grammar σ) (words : List (Word σ)) : Prop :=
  ∀ w ∈ words, ∀ f name attached, w.2 = .flag f name attached → f ∈ g.flags

theorem Known.mono {words rest : List (Word σ)} (h : g.Known words) (hrest : rest ⊆ words) :
    g.Known rest :=
  fun w hw => h w (hrest hw)

namespace Marks

theorem map_fst {words : List Text} {marked : List (Word σ)} (h : g.Marks words marked) :
    marked.map (·.1) = words := by
  induction h with
  | nil => rfl
  | dashes rest => simp [Function.comp_def]
  | word hne h hrest ih => rw [List.map_cons, ih]

theorem known {words : List Text} {marked : List (Word σ)} (h : g.Marks words marked) :
    g.Known marked := by
  induction h with
  | nil => exact fun _ hw => absurd hw List.not_mem_nil
  | dashes rest =>
    intro w hw f name attached hflag
    rcases List.mem_cons.1 hw with rfl | hw
    · exact nomatch hflag
    · obtain ⟨word, -, rfl⟩ := List.mem_map.1 hw
      exact nomatch hflag
  | word hne h hrest ih =>
    intro w hw f name attached hflag
    rcases List.mem_cons.1 hw with rfl | hw
    · rcases markWord_cases h with rfl | rfl | ⟨f', name', attached', hf, rfl⟩
      · exact nomatch hflag
      · exact nomatch hflag
      · rw [← (Mark.flag.inj hflag).1]
        exact hf
    · exact ih w hw f name attached hflag

/-- A word that is no flag, in front of one that is, is plain. -/
theorem eq_plain {words : List Text} {w x : Word σ} {rest : List (Word σ)}
    (h : g.Marks words (w :: rest)) (hw : w.2.isFlag = false) (hx : x ∈ rest)
    (hflag : x.2.isFlag = true) : w.2 = .plain := by
  cases h with
  | dashes rest =>
    obtain ⟨word, -, rfl⟩ := List.mem_map.1 hx
    exact nomatch hflag
  | word hne h hrest =>
    rcases markWord_cases h with hplain | rfl | ⟨f, name, attached, -, rfl⟩
    · exact hplain
    · exact nomatch hw
    · exact nomatch hw

/-- While the operand is still to come, nothing is passed over in front of a flag. -/
theorem eq_nil_of_passes {words : List Text} {plain rest : List (Word σ)} {w : Word σ} {value : σ}
    (h : g.Marks words (plain ++ w :: rest)) (hplain : ∀ x ∈ plain, x.2.isFlag = false)
    (hw : w.2.isFlag = true) (hpasses : g.Passes (plain ++ w :: rest) true value) :
    plain = [] := by
  cases plain with
  | nil => rfl
  | cons x plain =>
    obtain ⟨hx, -⟩ := List.forall_mem_cons.1 hplain
    have hmark := eq_plain h hx (List.mem_append_right _ List.mem_cons_self) hw
    have hat : AtOperand (x :: plain ++ w :: rest) := by
      intro y hy
      rw [← Option.some.inj hy]
      exact hx
    have hfirst : dropDashes (x :: plain ++ w :: rest) = (x.1, .plain) :: (plain ++ w :: rest) := by
      obtain ⟨word, mark⟩ := x
      obtain rfl : mark = .plain := hmark
      rfl
    exact absurd hfirst (takeOperand_eq_none_iff.1 (hpasses rfl hat) _ _)

end Marks

theorem Passes.value {words : List (Word σ)} {open_ : Bool} {value : σ}
    (h : g.Passes words open_ value) (value' : σ) : g.Passes words open_ value' :=
  fun hopen hat => takeOperand_eq_none_iff.2 (takeOperand_eq_none_iff.1 (h hopen hat))

/-- No operand is taken up in front of a flag. -/
theorem passes_of_isFlag {w : Word σ} (hw : w.2.isFlag = true) (rest : List (Word σ))
    (open_ : Bool) (value : σ) : g.Passes (w :: rest) open_ value := by
  intro _ hat
  have hnot := hat w rfl
  rw [hw] at hnot
  exact nomatch hnot

theorem Takes.cons_flag {word name : Text} {f : Flag σ} {attached : Option Text}
    {rest rest' : List (Word σ)} {open_ : Bool} {value value' : σ} {leftOver : List Text}
    {r : Result σ} (htake : g.takeFlag f name attached rest value = .ok (value', rest'))
    (h : g.Takes rest' open_ value' leftOver r) :
    g.Takes ((word, .flag f name attached) :: rest) open_ value leftOver r := by
  rw [← List.append_nil leftOver] at h
  exact .flag (passes_of_isFlag rfl _ _ _) (fun _ hx => absurd hx List.not_mem_nil) htake h

theorem Takes.cons_unknown {word : Text} {rest : List (Word σ)} {open_ : Bool} {value : σ}
    {leftOver : List Text} {r : Result σ}
    (h : g.Takes rest open_ value (leftOver ++ [word]) r) :
    g.Takes ((word, .unknown) :: rest) open_ value leftOver r := by
  rw [← List.append_nil leftOver] at h
  exact .unknown (passes_of_isFlag rfl _ _ _) (fun _ hx => absurd hx List.not_mem_nil) h

/-- A change of the values that nothing sees: the flags and the operand store what they store before
it and after it, as long as the values keep a property. -/
structure Unseen (g : Grammar σ) (change : σ → σ) (Kept : σ → Prop) : Prop where
  flag {f : Flag σ} {set : Option Text → σ → Except Text σ} {argument : Option Text}
    {value value' : σ} (hf : f ∈ g.flags) (heffect : f.effect = .store set)
    (h : set argument value = .ok value') (hkept : Kept value') :
    Kept value ∧ set argument (change value) = .ok (change value')
  operand {first : Text} {more : List Text} {value value' : σ}
    (h : g.operand.set first more value = .ok value') (hkept : Kept value') :
    Kept value ∧ g.operand.set first more (change value) = .ok (change value')

/-- A change that nothing sees can be made in front of the words as well as behind them. -/
theorem Takes.change {change : σ → σ} {Kept : σ → Prop} (hunseen : g.Unseen change Kept)
    {words : List (Word σ)} {open_ : Bool} {value : σ} {leftOver : List Text} {r : Result σ}
    (h : g.Takes words open_ value leftOver r) (hknown : g.Known words) (hkept : Kept r.value) :
    Kept value ∧ g.Takes words open_ (change value) leftOver ⟨change r.value, r.leftOver⟩ := by
  induction h with
  | operand hnext h hrest ih =>
    obtain ⟨hkept', htakes⟩ := ih (hknown.mono (subset_of_takeOperand h)) hkept
    obtain ⟨word, rest, first, more, hdashes, hset, hwords⟩ := takeOperand_eq_some_iff.1 h
    obtain ⟨hkept'', hset'⟩ := hunseen.operand hset hkept'
    refine ⟨hkept'', .operand hnext ?_ htakes⟩
    exact takeOperand_eq_some_iff.2 ⟨word, rest, first, more, hdashes, hset', hwords⟩
  | stop hpasses hplain hend => exact ⟨hkept, .stop (hpasses.value _) hplain hend⟩
  | flag hpasses hplain h hrest ih =>
    obtain ⟨hplainKnown, hknown⟩ := List.forall_mem_append.1 hknown
    obtain ⟨hf, hknown⟩ := List.forall_mem_cons.1 hknown
    obtain ⟨hkept', htakes⟩ := ih (Known.mono hknown (subset_of_takeFlag h)) hkept
    obtain ⟨set, argument, heffect, hset, hused⟩ := takeFlag_eq_ok_iff.1 h
    obtain ⟨hkept'', hset'⟩ := hunseen.flag (hf _ _ _ rfl) heffect hset hkept'
    refine ⟨hkept'', .flag (hpasses.value _) hplain ?_ htakes⟩
    exact takeFlag_eq_ok_iff.2 ⟨set, argument, heffect, hset', hused⟩
  | unknown hpasses hplain hrest ih =>
    obtain ⟨hplainKnown, hknown⟩ := List.forall_mem_append.1 hknown
    obtain ⟨hkept', htakes⟩ := ih (List.forall_mem_cons.1 hknown).2 hkept
    exact ⟨hkept', .unknown (hpasses.value _) hplain htakes⟩

end Grammar

/-! ## Whole command lines -/

theorem refuseLeftOver_eq_ok_iff {words : List Text} :
    refuseLeftOver words = .ok () ↔ words = [] := by
  unfold refuseLeftOver
  cases words with
  | nil => exact ⟨fun _ => rfl, fun _ => rfl⟩
  | cons word words => exact ⟨fun h => (nomatch h), fun h => (nomatch h)⟩

/-- A command line asks for a command if its words are all taken up, those in front of the name of
the command and those behind it. -/
theorem parse_eq_some_iff {words : List Text} {i : Invocation} :
    parse words = .ok (some i) ↔
      ∃ front name rest n back, globalGrammar.parse words ⟨.no, .no, none⟩ = .ok front ∧
        front.value.command = some (name, rest) ∧ Name.ofSpelling? name = some n ∧
        (localGrammar n).parse rest ⟨[], [], .no, .no, .no⟩ = .ok back ∧
        front.leftOver ++ back.leftOver = [] ∧
        i = ⟨front.value.config, front.value.level, n.action back.value⟩ := by
  unfold parse
  constructor
  · intro h
    obtain ⟨front, hfront, h⟩ := of_bind_eq_ok h
    have hnone : ∀ c l, (do
        refuseLeftOver (if (none : Option Action).isSome then [] else front.leftOver)
        return (none : Option Action).map (⟨c, l, ·⟩)) ≠ Except.ok (some i) := by
      intro c l hok
      obtain ⟨-, -, hok⟩ := of_bind_eq_ok hok
      exact nomatch hok
    dsimp only at h
    split at h
    · exact absurd h (hnone _ _)
    · next name rest hcommand =>
      split at h
      · exact absurd h (hnone _ _)
      · next n hn =>
        obtain ⟨back, hback, h⟩ := of_bind_eq_ok h
        obtain ⟨⟨⟩, hleft, h⟩ := of_bind_eq_ok h
        refine ⟨front, name, rest, n, back, hfront, hcommand, hn, hback,
          refuseLeftOver_eq_ok_iff.1 hleft, ?_⟩
        exact (Option.some.inj (Except.ok.inj h)).symm
  · rintro ⟨front, name, rest, n, back, hfront, hcommand, hn, hback, hleft, rfl⟩
    refine bind_of_ok hfront ?_
    dsimp only
    rw [hcommand]
    dsimp only
    rw [hn]
    refine bind_of_ok hback ?_
    exact bind_of_ok (refuseLeftOver_eq_ok_iff.2 hleft) rfl

end Proviso.Command
