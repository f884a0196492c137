/-
  A seed put into a command line.

  A flag with its argument in front of words changes the values that these words start from, and
  nothing else; and the words in front of a command say what they say whatever words stand behind it
  (`fronts_of_takes`). So a command line that tests a rule without a seed can be given any integer
  as a seed: the flag and the decimal text of the integer go behind the name of the command
  (`parse_with_seed`).
-/
import Proviso.Proofs.CommandLines
import Proviso.Proofs.Spellings

namespace Proviso

theorem Text.cut_of_not_mem {mark : Char} {t : Text} (h : mark ∉ t) :
    Text.cut mark t = (t, none) := by
  induction t with
  | nil => rfl
  | cons c t ih =>
    rw [List.mem_cons, not_or] at h
    rw [Text.cut, if_neg (Ne.symm h.1), ih h.2]

namespace Command

namespace Grammar

variable {σ : Type} {g : Grammar σ}

/-! ## Integers among words -/

/-- Digits behind a minus sign look like a negative number. -/
theorem isNegativeNumber_of_digits {t : Text} (hne : t ≠ [])
    (hdigits : ∀ c ∈ t, c.isDigit = true) : isNegativeNumber ('-' :: t) = true := by
  have hbreak : ('-' :: t).getLast? ≠ some '\n' := by
    intro heq
    have hmem := List.mem_of_getLast? heq
    rcases List.mem_cons.1 hmem with heq | hmem
    · exact absurd heq (by decide)
    · exact absurd (hdigits _ hmem) (by decide)
  have hpoint : '.' ∉ t := fun hmem => absurd (hdigits _ hmem) (by decide)
  have hall : t.all Text.isDigit = true :=
    List.all_eq_true.2 fun c hc => Option.isSome_of_eq_some (Toml.digit?_of_isDigit (hdigits c hc))
  unfold isNegativeNumber
  rw [if_neg hbreak]
  simp only [Text.cut_of_not_mem hpoint]
  rw [hall, Bool.and_true, Bool.not_eq_true']
  exact List.isEmpty_eq_false_iff.2 hne

/-- The word looks like a negative number at its second character. -/
def hasDigit (word : Text) : Bool := (word.drop 1).head?.any Char.isDigit

theorem flag?_of_digit (hnames : ∀ n ∈ g.named, hasDigit n.1 = false) {d : Char} (t : Text)
    (hd : d.isDigit = true) : g.flag? ('-' :: d :: t) = none := by
  unfold flag?
  rw [Option.map_eq_none_iff, List.find?_eq_none]
  intro n hn heq
  have hname := hnames n hn
  rw [beq_iff_eq.1 heq] at hname
  exact Bool.noConfusion (hname.symm.trans hd)

theorem readings_of_digit (hnames : ∀ n ∈ g.named, hasDigit n.1 = false) {d : Char} (t : Text)
    (hd : d.isDigit = true) : g.readings ('-' :: d :: t) = [] := by
  have hdash : d ≠ '-' := by
    rintro rfl
    exact absurd hd (by decide)
  have hlong : Text.beginsWith ['-', '-'] ('-' :: d :: t) = false := by
    rw [Text.beginsWith, Text.after?, if_pos rfl, Text.after?, if_neg (Ne.symm hdash)]
    rfl
  unfold readings
  rw [hlong, if_neg Bool.false_ne_true, List.filterMap_eq_nil_iff]
  intro n hn
  have hname := hnames n hn
  dsimp only
  rw [if_neg, if_neg]
  · intro hbegins
    obtain ⟨rest, hrest⟩ := Option.isSome_iff_exists.1 hbegins
    rw [Toml.eq_append_of_after? hrest] at hname
    exact Bool.noConfusion (hname.symm.trans hd)
  · intro heq
    rw [heq] at hname
    exact Bool.noConfusion (hname.symm.trans hd)

/-- A negative number is a plain word for a grammar without flags that look like numbers. -/
theorem markWord_negative (hnames : ∀ n ∈ g.named, hasDigit n.1 = false) {t : Text} (hne : t ≠ [])
    (hdigits : ∀ c ∈ t, c.isDigit = true) : g.markWord ('-' :: t) = .ok .plain := by
  obtain ⟨d, u, rfl⟩ := List.exists_cons_of_ne_nil hne
  have hd : d.isDigit = true := hdigits d List.mem_cons_self
  have hequals : '=' ∉ '-' :: d :: u := by
    intro hmem
    rcases List.mem_cons.1 hmem with heq | hmem
    · exact absurd heq (by decide)
    · exact absurd (hdigits _ hmem) (by decide)
  unfold markWord
  rw [if_neg (by simp), flag?_of_digit hnames u hd]
  dsimp only
  rw [if_neg (by simp), Text.cut_of_not_mem hequals]
  dsimp only
  rw [readings_of_digit hnames u hd]
  dsimp only
  rw [isNegativeNumber_of_digits hne hdigits]
  rfl

/-- The decimal text of an integer is a plain word for a grammar without flags that look like
numbers. -/
theorem markWord_ofInt (hnames : ∀ n ∈ g.named, hasDigit n.1 = false) (i : Int) :
    g.markWord (Text.ofInt i) = .ok .plain := by
  have hdigits : ∀ c ∈ Text.ofNat i.natAbs, c.isDigit = true :=
    fun _ h => Text.isDigit_of_mem_ofNat h
  have hne := Text.ofNat_ne_nil i.natAbs
  rw [Text.ofInt_eq]
  split
  · exact markWord_negative hnames hne hdigits
  · unfold markWord
    rw [if_pos]
    intro hhead
    exact absurd (hdigits _ (List.mem_of_mem_head? hhead)) (by decide)

end Grammar

/-! ## The seed of a test -/

/-- What the words of a command say, with another seed. -/
def Local.withSeed (seed : Given Int) (l : Local) : Local := { l with seed := seed }

theorem unseen_seed (seed : Given Int) :
    (localGrammar .test).Unseen (Local.withSeed seed) (fun l => l.seed = .no) where
  flag := by
    intro f set argument value value' hf heffect h hkept
    have hcases : f = helpFlag ∨ f = setFlag ∨ f = keyFlag ∨ f = seedFlag := by
      simpa [localGrammar] using hf
    rcases hcases with rfl | rfl | rfl | rfl
    · exact nomatch heffect
    · obtain rfl := Effect.store.inj heffect
      obtain rfl := Except.ok.inj h
      exact ⟨hkept, rfl⟩
    · obtain rfl := Effect.store.inj heffect
      obtain rfl := Except.ok.inj h
      exact ⟨hkept, rfl⟩
    · obtain rfl := Effect.store.inj heffect
      cases argument with
      | none =>
        obtain rfl := Except.ok.inj h
        exact nomatch hkept
      | some a =>
        dsimp only at h
        split at h
        · obtain rfl := Except.ok.inj h
          exact nomatch hkept
        · exact nomatch h
  operand := by
    intro first more value value' h hkept
    obtain rfl := Except.ok.inj h
    exact ⟨hkept, rfl⟩

/-! ## Words behind a command -/

theorem command_of_globalFlag {f : Flag Global} {set : Option Text → Global → Except Text Global}
    {argument : Option Text} {value value' : Global} (hf : f ∈ globalGrammar.flags)
    (heffect : f.effect = .store set) (h : set argument value = .ok value') :
    value'.command = value.command := by
  have hcases : f = helpFlag ∨ f ∈ globalGrammar.flags.tail := by
    simpa [globalGrammar] using hf
  rcases hcases with rfl | hf
  · exact nomatch heffect
  · simp only [globalGrammar, List.tail_cons, List.mem_cons, List.not_mem_nil, or_false] at hf
    rcases hf with rfl | rfl
    · obtain rfl := Effect.store.inj heffect
      obtain rfl := Except.ok.inj h
      rfl
    · obtain rfl := Effect.store.inj heffect
      obtain rfl := Except.ok.inj h
      rfl

theorem eq_spelling_of_ofSpelling? {t : Text} {n : Name} (h : Name.ofSpelling? t = some n) :
    t = n.spelling := by
  have hfound : (n.spelling == t) = true :=
    List.find?_some (p := fun n : Name => n.spelling == t) h
  exact (beq_iff_eq.1 hfound).symm

/-- A command is taken up with all words behind it. -/
theorem globalOperand_eq_ok_iff {first : Text} {more : List Text} {value value' : Global} :
    globalGrammar.operand.set first more value = .ok value' ↔
      (∃ n, Name.ofSpelling? first = some n) ∧
        value' = { value with command := some (first, more) } := by
  simp only [globalGrammar]
  constructor
  · intro h
    split at h
    · next n hn => exact ⟨⟨n, hn⟩, (Except.ok.inj h).symm⟩
    · exact nomatch h
  · rintro ⟨⟨n, hn⟩, rfl⟩
    rw [hn]

theorem markWord_spelling {σ : Type} (g : Grammar σ) (n : Name) :
    g.markWord n.spelling = .ok .plain := by
  unfold Grammar.markWord
  cases n <;> rw [if_pos (by decide)]

/-- The name of a command takes up the words behind it. -/
theorem exists_takes_spelling (n : Name) {rest : List Text} {m : List (Word Global)}
    (hm : globalGrammar.Marks rest m) (value : Global) (leftOver : List Text) :
    ∃ marked, globalGrammar.Marks (n.spelling :: rest) marked ∧
      globalGrammar.Takes marked true value leftOver
        ⟨{ value with command := some (n.spelling, rest) }, leftOver⟩ := by
  have hne : n.spelling ≠ ['-', '-'] := by cases n <;> decide
  have hname : Name.ofSpelling? n.spelling = some n := by cases n <;> rfl
  have hset : globalGrammar.operand.set n.spelling rest value
      = .ok { value with command := some (n.spelling, rest) } :=
    globalOperand_eq_ok_iff.2 ⟨⟨n, hname⟩, rfl⟩
  have hwords : ((n.spelling, Mark.plain) :: m).map (·.1) = n.spelling :: rest := by
    rw [List.map_cons, hm.map_fst]
  have htake : globalGrammar.takeOperand ((n.spelling, .plain) :: m) value
      = .ok (some ({ value with command := some (n.spelling, rest) }, [])) :=
    Grammar.takeOperand_eq_some_iff.2 ⟨_, m, _, rest, rfl, hset, hwords, rfl⟩
  have hend : globalGrammar.Takes [] false { value with command := some (n.spelling, rest) }
      leftOver ⟨{ value with command := some (n.spelling, rest) }, leftOver ++ []⟩ :=
    .stop (fun hopen => nomatch hopen) (fun _ hw => absurd hw List.not_mem_nil) rfl
  rw [List.append_nil] at hend
  refine ⟨_, .word hne (markWord_spelling _ n) hm, .operand ?_ htake hend⟩
  intro w hw
  rw [← Option.some.inj hw]
  rfl

/-- The words are those in front of a command, its name and the words behind it, and what they come
to does not depend on the words behind it, but for these words themselves. -/
def Fronts (words : List Text) (value : Global) (leftOver : List Text)
    (r : Grammar.Result Global) (name : Text) (rest : List Text) : Prop :=
  ∃ front, words = front ++ name :: rest ∧ (∃ m, globalGrammar.Marks rest m) ∧
    ∀ rest' m, globalGrammar.Marks rest' m →
      ∃ marked, globalGrammar.Marks (front ++ name :: rest') marked ∧
        globalGrammar.Takes marked true value leftOver
          ⟨{ r.value with command := some (name, rest') }, r.leftOver⟩

theorem Fronts.append {words : List Text} {value value' : Global} {leftOver leftOver' : List Text}
    {r : Grammar.Result Global} {name : Text} {rest : List Text} (used : List Text)
    (h : Fronts words value' leftOver' r name rest)
    (hused : ∀ words marked r, globalGrammar.Marks words marked →
      globalGrammar.Takes marked true value' leftOver' r →
      ∃ marked', globalGrammar.Marks (used ++ words) marked' ∧
        globalGrammar.Takes marked' true value leftOver r) :
    Fronts (used ++ words) value leftOver r name rest := by
  obtain ⟨front, rfl, hm, hfront⟩ := h
  refine ⟨used ++ front, (List.append_assoc _ _ _).symm, hm, fun rest' m hrest' => ?_⟩
  obtain ⟨marked, hmarks, htakes⟩ := hfront rest' m hrest'
  rw [List.append_assoc]
  exact hused _ _ _ hmarks htakes

/-- The words in front of a command say what they say whatever words stand behind it. -/
theorem fronts_of_takes {words : List Text} {marked : List (Word Global)} {open_ : Bool}
    {value : Global} {leftOver : List Text} {r : Grammar.Result Global} {name : Text}
    {rest : List Text} (h : globalGrammar.Takes marked open_ value leftOver r)
    (hmarks : globalGrammar.Marks words marked) (hopen : open_ = true)
    (hnone : value.command = none) (hcommand : r.value.command = some (name, rest)) :
    Fronts words value leftOver r name rest := by
  induction h generalizing words with
  | @operand marked behind value value' leftOver r hnext h hrest ih =>
    obtain ⟨word, more, first, args, hdashes, hset, hwords⟩ := Grammar.takeOperand_eq_some_iff.1 h
    obtain ⟨hmarked, rfl⟩ : marked.map (·.1) = first :: args ∧ behind = [] := hwords
    obtain ⟨⟨n, hn⟩, rfl⟩ := globalOperand_eq_ok_iff.1 hset
    obtain rfl : r = ⟨{ value with command := some (first, args) }, leftOver ++ []⟩ :=
      (Except.ok.inj (hrest.eq_ok (Nat.zero_lt_one))).symm
    obtain ⟨rfl, rfl⟩ := Prod.mk.inj (Option.some.inj hcommand)
    obtain rfl := hmarks.map_fst.symm.trans hmarked
    cases hmarks with
    | dashes =>
      have hnot : Name.ofSpelling? ['-', '-'] = none := by decide
      exact nomatch hnot.symm.trans hn
    | @word _ mark _ marked hne hword hbehind =>
      obtain rfl := eq_spelling_of_ofSpelling? hn
      refine ⟨[], rfl, ⟨marked, hbehind⟩, fun rest' m hm => ?_⟩
      rw [List.append_nil]
      exact exists_takes_spelling n hm value leftOver
  | stop hpasses hplain hend => exact nomatch hnone.symm.trans hcommand
  | @flag plain more rest' word name' f attached open_ value value' leftOver r hpasses hplain h
      hrest ih =>
    obtain rfl := hopen
    obtain rfl := hmarks.eq_nil_of_passes hplain rfl hpasses
    have hf := hmarks.known _ List.mem_cons_self _ _ _ rfl
    rw [List.nil_append] at hmarks
    rw [List.map_nil, List.append_nil] at ih
    cases hmarks with
    | word hne hword hbehind =>
      obtain ⟨set, argument, heffect, hset, hused⟩ := Grammar.takeFlag_eq_ok_iff.1 h
      have hnone' := (command_of_globalFlag hf heffect hset).trans hnone
      -- The flag takes up nothing behind it, or the word that follows.
      rcases hused with ⟨a, rfl, rfl, rfl⟩ | ⟨a, rfl, rfl, rfl⟩
      · refine (ih hbehind rfl hnone' hcommand).append [word] fun words marked r hm ht => ?_
        refine ⟨_, .word hne hword hm, .cons_flag ?_ ht⟩
        exact Grammar.takeFlag_eq_ok_iff.2 ⟨set, _, heffect, hset, .inl ⟨a, rfl, rfl, rfl⟩⟩
      · cases hbehind with
        | word hne' hword' hbehind =>
          refine (ih hbehind rfl hnone' hcommand).append [word, a] fun words marked r hm ht => ?_
          refine ⟨_, .word hne hword (.word hne' hword' hm), .cons_flag ?_ ht⟩
          exact Grammar.takeFlag_eq_ok_iff.2 ⟨set, _, heffect, hset, .inr ⟨a, rfl, rfl, rfl⟩⟩
  | @unknown plain more word open_ value leftOver r hpasses hplain hrest ih =>
    obtain rfl := hopen
    obtain rfl := hmarks.eq_nil_of_passes hplain rfl hpasses
    rw [List.nil_append] at hmarks
    rw [List.map_nil, List.append_nil] at ih
    cases hmarks with
    | word hne hword hbehind =>
      refine (ih hbehind rfl hnone hcommand).append [word] fun words marked r hm ht => ?_
      exact ⟨_, .word hne hword hm, .cons_unknown ht⟩

/-! ## A command line with a seed -/

theorem ofInt_ne_dashes (i : Int) : Text.ofInt i ≠ ['-', '-'] := by
  have hdigits : '-' ∉ Text.ofNat i.natAbs := fun h =>
    absurd (Text.isDigit_of_mem_ofNat h) (by decide)
  rw [Text.ofInt_eq]
  split
  · intro heq
    rw [(List.cons.inj heq).2] at hdigits
    exact hdigits List.mem_cons_self
  · intro heq
    rw [heq] at hdigits
    exact hdigits List.mem_cons_self

/-- Behind the name of a command, the flag for the seed with the decimal text of an integer has no
influence on what is read of the words in front of it. -/
theorem marks_seed (n : Int) {words : List Text} {marked : List (Word Global)}
    (h : globalGrammar.Marks words marked) :
    globalGrammar.Marks ("--seed".toList :: Text.ofInt n :: words)
      (("--seed".toList, .unknown) :: (Text.ofInt n, .plain) :: marked) := by
  refine .word (by decide) (by rfl) (.word (ofInt_ne_dashes n) ?_ h)
  exact Grammar.markWord_ofInt (by decide) n

theorem parse_local_seed {n : Int} (hn : Numeral.argument? (Text.ofInt n) = some n)
    {words : List Text} {r : Grammar.Result Local} (hseed : r.value.seed = .no)
    (h : (localGrammar .test).parse words ⟨[], [], .no, .no, .no⟩ = .ok r) :
    (localGrammar .test).parse ("--seed".toList :: Text.ofInt n :: words) ⟨[], [], .no, .no, .no⟩
      = .ok ⟨r.value.withSeed (.value n), r.leftOver⟩ := by
  obtain ⟨marked, hmarks, htakes⟩ := Grammar.parse_eq_ok_iff.1 h
  have hmarks' : (localGrammar .test).Marks ("--seed".toList :: Text.ofInt n :: words)
      (("--seed".toList, .flag seedFlag "--seed".toList none) :: (Text.ofInt n, .plain)
        :: marked) := by
    refine .word (by decide) (by rfl) (.word (ofInt_ne_dashes n) ?_ hmarks)
    exact Grammar.markWord_ofInt (by decide) n
  obtain ⟨-, htakes⟩ := htakes.change (unseen_seed (.value n)) hmarks.known hseed
  refine Grammar.parse_eq_ok_iff.2 ⟨_, hmarks', .cons_flag ?_ htakes⟩
  refine Grammar.takeFlag_eq_ok_iff.2 ⟨_, some (Text.ofInt n), rfl, ?_, .inr ⟨_, rfl, rfl, rfl⟩⟩
  dsimp only
  rw [hn]
  rfl

/-- A command line for a test without a seed can be given one. -/
theorem parse_with_seed {n : Int} (hn : Numeral.argument? (Text.ofInt n) = some n)
    {words : List Text} {config level : Given Text} {file : Text} {items : List (Option Text)}
    {key : Given Text}
    (h : parse words = .ok (some ⟨config, level, .test file items key .no⟩)) :
    ∃ front rest, words = front ++ rest ∧
      parse (front ++ "--seed".toList :: Text.ofInt n :: rest)
        = .ok (some ⟨config, level, .test file items key (.value n)⟩) := by
  obtain ⟨front, name, rest, command, back, hfront, hcommand, hname, hback, hleft, heq⟩ :=
    parse_eq_some_iff.1 h
  obtain ⟨hconfig, hlevel, haction⟩ := Invocation.mk.inj heq
  cases command with
  | check => exact nomatch haction
  | apply => exact nomatch haction
  | format => exact nomatch haction
  | test =>
    obtain ⟨hfile, hitems, hkey, hseed⟩ := Action.test.inj haction
    obtain ⟨marked, hmarks, htakes⟩ := Grammar.parse_eq_ok_iff.1 hfront
    obtain ⟨before, rfl, ⟨m, hm⟩, hbefore⟩ := fronts_of_takes htakes hmarks rfl rfl hcommand
    have hfront' := Grammar.parse_eq_ok_iff.2 (hbefore _ _ (marks_seed n hm))
    have hback' := parse_local_seed hn hseed.symm hback
    refine ⟨before ++ [name], rest, by simp, ?_⟩
    rw [List.append_assoc]
    refine parse_eq_some_iff.2 ⟨_, name, _, .test, _, hfront', rfl, hname, hback', hleft, ?_⟩
    rw [hconfig, hlevel, hfile, hitems, hkey]
    rfl

end Command

end Proviso
