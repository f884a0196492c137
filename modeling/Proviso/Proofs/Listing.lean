/-
  What is printed of a mapping.

  To apply a rule is to come to a mapping (`Reaches`) without printing anything and to print its
  entries one at a time (`Prints.printEntries`). An entry that cannot be written is noticed when its
  turn comes, and the entries in front of it have been printed by then. So a run prints all of the
  mapping or nothing of it, each entry in a line of its own, just when every entry can be written in
  one line, or not even the first can be written (`run_apply_whole_iff`).

  Modelled is an output that takes every character. A name with a character that the encoding of
  the output lacks would be one more entry that cannot be written, and it is not modelled, nor is
  the depth to which calls may be nested, which loading a rule can exhaust.
-/
import Proviso.Ledger.Lookup
import Proviso.Proofs.Verdicts

namespace Proviso

open Outline (Draft Position)

variable {v : Settings.Validation}

/-! ## Entries of a ledger -/

/-- There is one way to list a ledger in the order of the names. -/
theorem Ledger.eq_entries {l : Ledger} {es : List (Text × Int)}
    (hes : es.Pairwise fun a b => a.1.precedes b.1)
    (h : ∀ name value, (name, value) ∈ es ↔ l.get? name = some value) : es = l.entries := by
  refine Ledger.entries_ext hes l.sorted fun name => Option.ext fun value => ?_
  rw [← Ledger.mem_iff_find? hes, h]
  rfl

namespace Command

/-! ## Lines of entries -/

/-- The line of an entry: the written form of its name, and its value. -/
def entryLine (e : Text × Int) : Text := Outline.Token.written e.1 ++ [' '] ++ Text.ofInt e.2

/-- The lines list a ledger: one line for each name, whose written form it shows with the value, in
the order of the names. -/
def Lists (l : Ledger) (ls : List Text) : Prop :=
  ∃ es : List (Text × Int), ls = es.map entryLine ∧ (∀ e ∈ es, Outline.Token.Writable e.1) ∧
    (es.Pairwise fun a b => a.1.precedes b.1) ∧
    ∀ name value, (name, value) ∈ es ↔ l.get? name = some value

theorem Lists.eq {l : Ledger} {ls : List Text} (h : Lists l ls) : ls = l.entries.map entryLine := by
  obtain ⟨es, rfl, -, hsorted, hes⟩ := h
  rw [Ledger.eq_entries hsorted hes]

/-- An entry that can be written can be so in one line. -/
def Sound (e : Text × Int) : Prop := entryFault? e = none ∧ e.1.Unbroken

/-- Nothing keeps the entries from being listed, or the first of them cannot be written. -/
def Listable (es : List (Text × Int)) : Prop :=
  (∀ e ∈ es, Sound e) ∨ ∃ e ∈ es.head?, (entryFault? e).isSome = true

instance : DecidablePred Sound := fun _ => inferInstanceAs (Decidable (_ ∧ _))

instance : DecidablePred Listable := fun _ => inferInstanceAs (Decidable (_ ∨ _))

section Entries

variable {e : Text × Int} {es : List (Text × Int)}

theorem fault?_of_entryFault? (h : entryFault? e = none) :
    (Outline.Word.token e.1).fault? = none ∧ (Outline.Word.integer e.2).fault? = none :=
  Option.or_eq_none_iff.1 h

theorem writable_of_entryFault? (h : entryFault? e = none) : Outline.Token.Writable e.1 :=
  Outline.Word.writable_of_fault? (fault?_of_entryFault? h).1

theorem unbroken_entryLine (h : Sound e) : (entryLine e).Unbroken :=
  ((Outline.Token.unbroken_written (writable_of_entryFault? h.1) h.2).append (by decide)).append
    (Text.unbroken_ofInt e.2)

theorem unbroken_of_entryLine (hwritable : Outline.Token.Writable e.1)
    (h : (entryLine e).Unbroken) : e.1.Unbroken := by
  have hwritten : (Outline.Token.written e.1).Unbroken :=
    (Text.unbroken_append.1 (Text.unbroken_append.1 h).1).1
  rcases Outline.Token.written_cases hwritable with ⟨-, hbare⟩ | ⟨q, -, -, hquoted⟩
  · rwa [hbare] at hwritten
  · rw [hquoted] at hwritten
    exact (Text.unbroken_append.1 (Text.unbroken_cons.1 hwritten).2).1

end Entries

/-! ## Printing entries -/

/-- What is printed about an entry that cannot be written. -/
def complaint : Draft.Fault → Text
  | .numeral _ => []
  | fault => "Error: ".toList ++ fault.message ++ ['\n']

/-- What is printed of entries: their lines up to the first that cannot be written, and what is
wrong with that. -/
def listing (es : List (Text × Int)) : Text :=
  Text.unlines ((es.takeWhile fun e => (entryFault? e).isNone).map entryLine)
    ++ (es.findSome? entryFault?).elim [] complaint

theorem listing_of_sound {es : List (Text × Int)} (h : ∀ e ∈ es, entryFault? e = none) :
    listing es = Text.unlines (es.map entryLine) := by
  have hnone : es.findSome? entryFault? = none := List.findSome?_eq_none_iff.2 h
  have hall : es.takeWhile (fun e => (entryFault? e).isNone) = es :=
    List.takeWhile_eq_self_iff.2 fun e he => Option.isNone_iff_eq_none.2 (h e he)
  rw [listing, hnone, hall, Option.elim_none, List.append_nil]

theorem listing_cons {e : Text × Int} {es : List (Text × Int)} (h : entryFault? e = none) :
    listing (e :: es) = entryLine e ++ '\n' :: listing es := by
  unfold listing
  rw [List.findSome?_cons, h, List.takeWhile_cons, h]
  simp [Text.unlines_cons]

theorem listing_of_fault {e : Text × Int} {es : List (Text × Int)} {fault : Draft.Fault}
    (h : entryFault? e = some fault) : listing (e :: es) = complaint fault := by
  unfold listing
  rw [List.findSome?_cons, h, List.takeWhile_cons, h]
  rfl

theorem written_cons {e : Text × Int} {es : List (Text × Int)} (h : entryFault? e = none) :
    written (e :: es) = written es := by
  unfold written
  rw [List.findSome?_cons, h]

theorem written_of_fault {e : Text × Int} {es : List (Text × Int)} {fault : Draft.Fault}
    (h : entryFault? e = some fault) : written (e :: es) = .error (.ofDraft fault) := by
  unfold written
  rw [List.findSome?_cons, h]

namespace Prints

theorem failDraft {α : Type} (fault : Draft.Fault) :
    Prints (Run.failDraft fault : Run α) (complaint fault)
      (.error (Finish.ofDraft fault).ending) := by
  cases fault with
  | numeral fault => exact die _
  | unquotable => exact refuse _
  | notOpen => exact refuse _
  | stillOpen => exact refuse _
  | noPath => exact refuse _

theorem printEntries (es : List (Text × Int)) :
    Prints (Run.printEntries es) (listing es) ((written es).mapError Finish.ending) := by
  induction es with
  | nil => exact pure ()
  | cons e es ih =>
    obtain ⟨name, value⟩ := e
    rw [Run.printEntries]
    cases hfault : entryFault? (name, value) with
    | none =>
      obtain ⟨hname, hvalue⟩ := fault?_of_entryFault? hfault
      rw [listing_cons hfault, written_cons hfault,
        Outline.Word.write_of_writable (Outline.Word.writable_of_fault? hname),
        Outline.Word.write_of_writable (Outline.Word.writable_of_fault? hvalue),
        Outline.Word.text, Outline.Word.text,
        Outline.Token.written_of_bare (Text.needsQuotes_ofInt value)]
      have hline : Prints (Run.printLine (entryLine (name, value)) >>= fun _ => Run.printEntries es)
          _ _ := (printLine _).andThen ih
      rwa [List.append_assoc] at hline
    | some fault =>
      rw [listing_of_fault hfault, written_of_fault hfault]
      cases hname : (Outline.Word.token name).fault? with
      | some fault' =>
        have heq : fault' = fault := by simpa [entryFault?, hname] using hfault
        rw [Outline.Word.write_of_fault? hname, heq]
        exact failDraft fault
      | none =>
        have hvalue : (Outline.Word.integer value).fault? = some fault := by
          simpa [entryFault?, hname] using hfault
        rw [Outline.Word.write_of_writable (Outline.Word.writable_of_fault? hname),
          Outline.Word.write_of_fault? hvalue]
        exact failDraft fault

end Prints

/-! ## Coming to a mapping -/

/-- A command line that applies a rule comes to the mapping that is to be printed: the settings
hold, the values are assigned, the file is an outline with the header that is asked for, every
integer below that header can be read, and the rule is applied to the values. -/
inductive Reaches (w : World v) (i : Invocation) : Ledger → Prop where
  | intro {file : Text} {items : List (Option Text)} {key : Given Text} {s : Settings} {l : Ledger}
      {o : Outline} {p : Position} (haction : i.action = .apply file items key)
      (hsettings : i.Settles w s) (hloads : i.action.Loads w.disk l o)
      (hheader : chosen? o key = some p) : Reaches w i (p.node.rule.apply l)

section Mapping

variable {w : World v} {i : Invocation} {file : Text} {items : List (Option Text)}
  {key : Given Text}

/-- What a command that applies a rule comes to before it prints. -/
def mapping (disk : Disk) (file : Text) (items : List (Option Text)) (key : Given Text) :
    Except Finish Ledger := do
  let l ← assigned items
  let o ← opened disk file
  let ps ← required ((chosen? o key).map Position.visited)
  readable (overlongIn ps)
  (required (chosen? o key)).map (·.node.rule.apply l)

/-- The steps of a command that applies a rule, up to the printing. -/
def Run.mapping (w : World v) (s : Settings) (file : Text) (items : List (Option Text))
    (key : Given Text) : Run Ledger := do
  let l ← readItems items
  let o ← readOutline w file
  let rule ← loadRule s.level o (← select o key)
  return rule.apply l

/-- The steps of a run that applies a rule, up to the printing. -/
def Run.prepare (w : World v) (i : Invocation) (file : Text) (items : List (Option Text))
    (key : Given Text) : Run Ledger := do
  let s ← loadSettings w i.config i.level
  mapping { w with shared := ← configure w s } s file items key

theorem Run.main_eq_prepare {words : List Text} (hparse : parse words = .ok (some i))
    (haction : i.action = .apply file items key) :
    Run.main w words = Run.prepare w i file items key >>= fun m => Run.printEntries m.entries := by
  unfold Run.main Run.prepare Run.mapping
  rw [hparse]
  dsimp only
  rw [haction]
  simp only [Run.perform, Run.apply, bind_assoc, pure_bind]

theorem Quiet.mapping (w : World v) (s : Settings) (file : Text) (items : List (Option Text))
    (key : Given Text) :
    Quiet (Run.mapping w s file items key) (mapping w.disk file items key) := by
  refine judgement.bind (judgement.readItems items) fun l _ => ?_
  refine judgement.bind (judgement.readOutline w file) fun o _ => ?_
  refine judgement.loadChosen fun p hp => ?_
  rw [hp]
  exact judgement.pure _

theorem Quiet.prepare (w : World v) (i : Invocation) (file : Text) (items : List (Option Text))
    (key : Given Text) :
    Quiet (Run.prepare w i file items key)
      (i.settings w >>= fun _ => Command.mapping w.disk file items key) :=
  judgement.bind (judgement.loadSettings w i) fun s _ =>
    judgement.after (judgement.configure w s) (mapping _ s file items key)

theorem settles_of_settings {s : Settings} (h : i.settings w = .ok s) : i.Settles w s := by
  rcases settings_cases w i with ⟨s', hs⟩ | hblank | ⟨path, fault, hpath, hdies⟩ | hrefused
  · exact Except.ok.inj (hs.settings_eq.symm.trans h) ▸ hs
  · exact nomatch (bind_of_error (Given.course_of_blank hblank)).symm.trans h
  · exact nomatch (settings_of_configDies hpath hdies).symm.trans h
  · exact nomatch hrefused.symm.trans h

theorem ledger_of_assigned {l : Ledger} (h : assigned items = .ok l) :
    Assignment.ledger (leading items) = .ok l ∧ none ∉ items := by
  unfold assigned at h
  cases hledger : Assignment.ledger (leading items) with
  | error fault =>
    rw [hledger] at h
    exact nomatch h
  | ok l' =>
    rw [hledger] at h
    dsimp only at h
    split at h
    · exact nomatch h
    · next hitems => exact ⟨congrArg _ (Except.ok.inj h), hitems⟩

theorem outline_of_opened {disk : Disk} {o : Outline} (h : opened disk file = .ok o) :
    Outline.File.read disk file = .ok o := by
  unfold opened at h
  cases hread : Outline.File.read disk file with
  | error fault =>
    rw [hread] at h
    exact nomatch h
  | ok o' =>
    rw [hread] at h
    exact congrArg _ (Except.ok.inj h)

theorem eq_some_of_required {α : Type} {a? : Option α} {a : α} (h : required a? = .ok a) :
    a? = some a := by
  cases a? with
  | none => exact nomatch h
  | some b => exact congrArg some (Except.ok.inj h)

/-- The run comes to the mappings that it reaches. -/
theorem mapping_eq_ok_iff (haction : i.action = .apply file items key) (m : Ledger) :
    (i.settings w >>= fun _ => mapping w.disk file items key) = .ok m ↔ Reaches w i m := by
  constructor
  · intro h
    obtain ⟨s, hs, h⟩ := of_bind_eq_ok h
    obtain ⟨l, hl, h⟩ := of_bind_eq_ok h
    obtain ⟨o, ho, h⟩ := of_bind_eq_ok h
    obtain ⟨ps, hps, h⟩ := of_bind_eq_ok h
    obtain ⟨⟨⟩, hreadable, h⟩ := of_bind_eq_ok h
    have hlines := eq_some_of_required hps
    obtain ⟨hledger, hitems⟩ := ledger_of_assigned hl
    cases hp : chosen? o key with
    | none =>
      rw [hp] at h
      exact nomatch h
    | some p =>
      rw [hp] at h hlines
      rw [← Except.ok.inj h]
      refine .intro haction (settles_of_settings hs) ?_ hp
      refine ⟨⟨?_, ?_, ?_⟩, ?_, ps, ?_, fault_of_readable hreadable⟩
      · rwa [haction]
      · rwa [haction]
      · rw [haction]
        exact outline_of_opened ho
      · rw [haction]
        exact nofun
      · rw [haction, Action.lines?, hp]
        exact hlines
  · rintro ⟨haction', hsettings, hloads, hheader⟩
    rw [haction] at haction' hloads
    cases haction'
    obtain ⟨ps, hps, hnone⟩ := hloads.lines
    refine bind_of_ok hsettings.settings_eq ?_
    refine bind_of_ok (assigned_of_ledger hloads.ledger hloads.items) ?_
    refine bind_of_ok (congrArg (Except.mapError _) hloads.outline) ?_
    refine bind_of_ok (congrArg required hps) ?_
    rw [hnone, hheader]
    rfl

/-- A mapping that is computed is reached. -/
theorem exists_reaches (haction : i.action = .apply file items key) {es : List (Text × Int)}
    (h : (i.settings w >>= fun _ => mapping w.disk file items key).toOption.map Ledger.entries
      = some es) : ∃ m, Reaches w i m ∧ m.entries = es := by
  obtain ⟨m, hm, hes⟩ := Option.map_eq_some_iff.1 h
  refine ⟨m, (mapping_eq_ok_iff haction m).1 ?_, hes⟩
  cases hcourse : (i.settings w >>= fun _ => mapping w.disk file items key) with
  | ok m' =>
    rw [hcourse] at hm
    exact congrArg _ (Option.some.inj hm)
  | error finish =>
    rw [hcourse] at hm
    exact nomatch hm

end Mapping

/-! ## All of a mapping or nothing -/

/-- A run prints the whole mapping that it reaches, and ends with the exit code 0, or it fails
having printed nothing of the mapping, and at most a message about what is wrong. -/
inductive WholeOrNothing (w : World v) (words : List Text) (i : Invocation) : Prop where
  | whole {m : Ledger} (hreach : Reaches w i m) (hending : (run w words).ending = .ok 0)
      (hlines : Lists m (run w words).output.out.lines) : WholeOrNothing w words i
  | nothing (hending : (run w words).ending ≠ .ok 0)
      (hout : (run w words).output.out = [] ∨
        ∃ message, (run w words).output.out = "Error: ".toList ++ message ++ ['\n'])
      (hnone : ∀ m, Reaches w i m → ∀ name value, m.get? name = some value →
        entryLine (name, value) ∉ (run w words).output.out.lines) : WholeOrNothing w words i

theorem endingOf_mapError (c : Except Finish Unit) :
    endingOf (c.mapError Finish.ending) = outcome c := by
  cases c with
  | ok u => rfl
  | error finish => cases finish <;> rfl

theorem Reaches.action {w : World v} {i : Invocation} {m : Ledger} (h : Reaches w i m) :
    ∃ file items key, i.action = .apply file items key := by
  cases h with
  | intro haction => exact ⟨_, _, _, haction⟩

theorem Reaches.unique {w : World v} {i : Invocation} {m m' : Ledger} (h : Reaches w i m)
    (h' : Reaches w i m') : m = m' := by
  obtain ⟨file, items, key, haction⟩ := h.action
  have heq := (mapping_eq_ok_iff haction m).2 h
  exact Except.ok.inj (heq.symm.trans ((mapping_eq_ok_iff haction m').2 h'))

section Runs

variable {w : World v} {words : List Text} {i : Invocation} (hparse : parse words = .ok (some i))

include hparse

/-- A run prints what it can of the mapping that it reaches. -/
theorem run_of_reaches {m : Ledger} (h : Reaches w i m) :
    (run w words).output.out = listing m.entries ∧
      (run w words).ending = outcome (written m.entries) := by
  obtain ⟨file, items, key, haction⟩ := h.action
  have hquiet := Quiet.prepare w i file items key
  rw [(mapping_eq_ok_iff haction m).2 h] at hquiet
  have hprints : Prints (Run.prepare w i file items key >>= fun m => Run.printEntries m.entries)
      _ _ := hquiet.prints.after (Prints.printEntries m.entries)
  rw [← Run.main_eq_prepare hparse haction] at hprints
  obtain ⟨hout, hending⟩ := run_of_prints hprints
  exact ⟨hout, hending.trans (endingOf_mapError _)⟩

/-- A run that reaches no mapping fails with at most one message. -/
theorem run_of_not_reaches {file : Text} {items : List (Option Text)} {key : Given Text}
    (haction : i.action = .apply file items key) (h : ∀ m, ¬ Reaches w i m) :
    (run w words).ending ≠ .ok 0 ∧ ((run w words).output.out = [] ∨
      ∃ message, (run w words).output.out = "Error: ".toList ++ message ++ ['\n']) := by
  obtain ⟨t, hsaid, hprints⟩ := Quiet.prepare w i file items key
  cases hcourse : (i.settings w >>= fun _ => mapping w.disk file items key) with
  | ok m => exact absurd ((mapping_eq_ok_iff haction m).1 hcourse) (h m)
  | error finish =>
    rw [hcourse] at hsaid hprints
    have hended := hprints.ended fun m => Run.printEntries m.entries
    rw [← Run.main_eq_prepare hparse haction] at hended
    obtain ⟨hout, hending⟩ := run_of_prints hended
    rw [hout, hending]
    cases finish with
    | answer code => exact hsaid.elim
    | refused => exact ⟨nofun, .inr hsaid⟩
    | misused => exact ⟨nofun, .inl hsaid⟩
    | died fault => exact ⟨nofun, .inl hsaid⟩

end Runs

section Entries

variable {es : List (Text × Int)}

theorem outcome_written_iff : outcome (written es) = .ok 0 ↔ ∀ e ∈ es, entryFault? e = none := by
  unfold written
  rw [← List.findSome?_eq_none_iff]
  cases es.findSome? entryFault? with
  | none => exact ⟨fun _ => rfl, fun _ => rfl⟩
  | some fault => cases fault <;> exact ⟨nofun, nofun⟩

theorem entryFault?_cases {e : Text × Int} {fault : Draft.Fault} (h : entryFault? e = some fault) :
    fault = .unquotable e.1 ∨ fault = .numeral .tooLongToWrite := by
  rcases Option.or_eq_some_iff.1 h with hname | ⟨-, hvalue⟩
  · rw [Outline.Word.fault?, Option.ite_none_right_eq_some] at hname
    exact .inl (Option.some.inj hname.2).symm
  · rw [Outline.Word.fault?, Option.ite_none_right_eq_some] at hvalue
    exact .inr (Option.some.inj hvalue.2).symm

/-- The line of an entry ends in a digit, so it is not taken for what ends in a quote. -/
theorem entryLine_ne_quoted (e : Text × Int) (s t : Text) : entryLine e ≠ s ++ t.quoted := by
  intro heq
  have hne : Text.ofInt e.2 ≠ [] := fun hnil => by
    have hbare := Text.needsQuotes_ofInt e.2
    rw [hnil] at hbare
    exact absurd hbare (by decide)
  have hlast : (Text.ofInt e.2).getLast hne = Text.quoteFor t := by
    have hlasts := congrArg List.getLast? heq
    rw [entryLine, List.getLast?_append_of_ne_nil _ hne, List.getLast?_append, Text.quoted,
      List.getLast?_concat, List.getLast?_eq_some_getLast hne] at hlasts
    exact Option.some.inj hlasts
  have hmem := List.getLast_mem hne
  have hsign : '-' ≠ Text.quoteFor t := by
    unfold Text.quoteFor
    split <;> decide
  have hdigit : ∀ d < 10, Nat.digitChar d ≠ Text.quoteFor t := by
    unfold Text.quoteFor
    split <;> decide
  have hquote : ∀ c ∈ Text.ofInt e.2, c ≠ Text.quoteFor t :=
    Text.forall_mem_ofInt hsign hdigit e.2
  rw [hlast] at hmem
  exact hquote _ hmem rfl

theorem lines_complaint (t : Text) :
    (complaint (.unquotable t)).lines
      = ["Error: ".toList ++ "Token cannot be quoted: ".toList ++ t.quoted] := by
  have htext : complaint (.unquotable t)
      = Text.unlines ["Error: ".toList ++ "Token cannot be quoted: ".toList ++ t.quoted] := by
    rw [Text.unlines_cons, List.append_assoc "Error: ".toList]
    rfl
  rw [htext]
  refine Text.lines_unlines fun l hl => ?_
  rw [List.mem_singleton.1 hl]
  exact Text.Unbroken.append (by decide) (Text.unbroken_quoted t)

/-- No line of an entry is printed about an entry that cannot be written. -/
theorem entryLine_not_mem_complaint {d : Text × Int} {fault : Draft.Fault}
    (h : entryFault? d = some fault) (e : Text × Int) : entryLine e ∉ (complaint fault).lines := by
  rcases entryFault?_cases h with rfl | rfl
  · rw [lines_complaint, List.mem_singleton]
    exact entryLine_ne_quoted e ("Error: ".toList ++ "Token cannot be quoted: ".toList) d.1
  · exact List.not_mem_nil

/-- Where the line of an entry could be taken for a message, the name is written as it is. -/
theorem unbroken_of_message {e : Text × Int} (h : entryFault? e = none) {rest : Text}
    (hout : entryLine e ++ rest = [] ∨
      ∃ message, entryLine e ++ rest = "Error: ".toList ++ message) : e.1.Unbroken := by
  rcases Outline.Token.written_cases (writable_of_entryFault? h) with ⟨hbare, -⟩ | ⟨q, hq, -, hw⟩
  · exact Outline.Token.unbroken_of_bare hbare
  · unfold entryLine at hout
    rw [hw] at hout
    rcases hout with hnil | ⟨message, heq⟩
    · exact nomatch hnil
    · have hE : q = 'E' := (List.cons.inj heq).1
      rw [hE] at hq
      exact absurd hq (by decide)

end Entries

section Whole

variable {w : World v} {words : List Text} {i : Invocation} (hparse : parse words = .ok (some i))
  {m : Ledger} (hreach : Reaches w i m)

include hparse hreach

theorem whole_of_listable (h : Listable m.entries) : WholeOrNothing w words i := by
  obtain ⟨hout, hending⟩ := run_of_reaches hparse hreach
  rcases h with hsound | ⟨e, hhead, hfault⟩
  · have hfaultless : ∀ e ∈ m.entries, entryFault? e = none := fun e he => (hsound e he).1
    refine .whole hreach (hending.trans (outcome_written_iff.2 hfaultless)) ⟨m.entries, ?_, ?_, ?_⟩
    · rw [hout, listing_of_sound hfaultless]
      refine Text.lines_unlines fun line hline => ?_
      obtain ⟨e, he, rfl⟩ := List.mem_map.1 hline
      exact unbroken_entryLine (hsound e he)
    · exact fun e he => writable_of_entryFault? (hfaultless e he)
    · exact ⟨m.sorted, Ledger.mem_iff_find? m.sorted⟩
  · obtain ⟨rest, hentries⟩ := List.head?_eq_some_iff.1 hhead
    obtain ⟨fault, hfault⟩ := Option.isSome_iff_exists.1 hfault
    rw [hentries, listing_of_fault hfault] at hout
    refine .nothing ?_ ?_ fun m' hreach' name value _ => ?_
    · rw [hending, hentries]
      intro hzero
      have hnone := outcome_written_iff.1 hzero e List.mem_cons_self
      exact absurd (hnone.symm.trans hfault) nofun
    · rw [hout]
      rcases entryFault?_cases hfault with rfl | rfl
      · exact .inr ⟨_, rfl⟩
      · exact .inl rfl
    · rw [hout]
      exact entryLine_not_mem_complaint hfault (name, value)

theorem listable_of_whole (h : WholeOrNothing w words i) : Listable m.entries := by
  obtain ⟨hout, hending⟩ := run_of_reaches hparse hreach
  cases h with
  | whole hreach' hzero hlists =>
    rw [← hreach.unique hreach'] at hlists
    have hfaultless := outcome_written_iff.1 (hending.symm.trans hzero)
    refine .inl fun e he => ⟨hfaultless e he, ?_⟩
    refine unbroken_of_entryLine (writable_of_entryFault? (hfaultless e he)) ?_
    refine Text.not_break_of_mem_lines (t := (run w words).output.out) ?_
    rw [hlists.eq]
    exact List.mem_map_of_mem he
  | nothing hfails hmessage hnone =>
    cases hentries : m.entries with
    | nil =>
      rw [hending, hentries] at hfails
      exact absurd rfl hfails
    | cons e es =>
      cases hfault : entryFault? e with
      | some fault => exact .inr ⟨e, rfl, by rw [hfault]; rfl⟩
      | none =>
        -- The line of the first entry has been printed, which leaves no room for a message.
        rw [hentries, listing_cons hfault] at hout
        have hunbroken : e.1.Unbroken := by
          rw [hout] at hmessage
          refine unbroken_of_message hfault (hmessage.imp_right fun ⟨message, heq⟩ => ?_)
          exact ⟨message ++ ['\n'], by rw [heq, List.append_assoc]⟩
        have hmem : entryLine e ∈ (run w words).output.out.lines := by
          rw [hout, Text.lines, Text.linesFrom_line (unbroken_entryLine ⟨hfault, hunbroken⟩)]
          exact List.mem_cons_self
        have hget : m.get? e.1 = some e.2 := by
          refine (Ledger.mem_iff_find? m.sorted e.1 e.2).1 ?_
          rw [hentries]
          exact List.mem_cons_self
        exact absurd hmem (hnone m hreach e.1 e.2 hget)

end Whole

/-- A run that applies a rule prints the whole mapping, each name with its value in a line of its
own, or fails with nothing of the mapping printed, exactly if the entries of the mapping that it
reaches, where it reaches one, can be written in one line each or not even the first of them can be
written. -/
theorem run_apply_whole_iff (w : World v) {words : List Text} {i : Invocation} {file : Text}
    {items : List (Option Text)} {key : Given Text} (hparse : parse words = .ok (some i))
    (haction : i.action = .apply file items key) :
    WholeOrNothing w words i ↔ ∀ m, Reaches w i m → Listable m.entries := by
  refine ⟨fun h m hreach => listable_of_whole hparse hreach h, fun h => ?_⟩
  by_cases hreaches : ∃ m, Reaches w i m
  · obtain ⟨m, hreach⟩ := hreaches
    exact whole_of_listable hparse hreach (h m hreach)
  · have hnever : ∀ m, ¬ Reaches w i m := fun m hreach => hreaches ⟨m, hreach⟩
    obtain ⟨hending, hout⟩ := run_of_not_reaches hparse haction hnever
    exact .nothing hending hout fun m hreach => absurd hreach (hnever m)

/-- Names of the command line between names of the file: with a blank, with a quote, in another
script and empty. -/
theorem run_apply_whole_odd_names :
    let home : List Text := ["home".toList]
    let file : Text := "a.txt".toList
    let t : Text := "c\n\tb += 5\n\tZ = -1\n\tx >?= 7\n".toList
    let w : World .lenient :=
      ⟨Disk.ofEntries home [(home ++ [file], .file (Utf8.encode t))], .none, .ofSeed 0⟩
    let words : List Text :=
      ["apply".toList, file, "--set".toList, "b=1".toList, "--set".toList, "a \"b=-2".toList,
        "--set".toList, "\u00E9==3".toList]
    let items := [some "b=1".toList, some "a \"b=-2".toList, some "\u00E9==3".toList]
    let i : Invocation := ⟨.no, .no, .apply file items .no⟩
    parse words = .ok (some i) ∧ WholeOrNothing w words i ∧
      ∃ m, Reaches w i m ∧ m.entries = [("Z".toList, -1), ("a \"b".toList, -2), ("b".toList, 6),
        ("x".toList, 7), ("\u00E9=".toList, 3)] := by
  intro home file t w words items i
  have hparse : parse words = .ok (some i) := by rfl
  obtain ⟨m, hreach, hentries⟩ : ∃ m, Reaches w i m ∧ m.entries = [("Z".toList, -1),
      ("a \"b".toList, -2), ("b".toList, 6), ("x".toList, 7), ("\u00E9=".toList, 3)] :=
    exists_reaches rfl (by decide +kernel)
  refine ⟨hparse, (run_apply_whole_iff w hparse rfl).2 fun m' hreach' => ?_, m, hreach, hentries⟩
  rw [← hreach.unique hreach', hentries]
  decide

/-- The name that comes second can be put between neither kind of quotes, and the first line has
been printed by then; and a name with a line break is printed over two lines. -/
theorem apply_prints_in_part :
    let home : List Text := ["home".toList]
    let file : Text := "a.txt".toList
    let w : World .lenient :=
      ⟨Disk.ofEntries home [(home ++ [file], .file (Utf8.encode "c\n\ta = 1\n".toList))], .none,
        .ofSeed 0⟩
    let words (item : Text) : List Text := ["apply".toList, file, "--set".toList, item]
    let i (item : Text) : Invocation := ⟨.no, .no, .apply file [some item] .no⟩
    (parse (words "b \"\x60=1".toList) = .ok (some (i "b \"\x60=1".toList)) ∧
      (run w (words "b \"\x60=1".toList)).ending = .ok 1 ∧
      (run w (words "b \"\x60=1".toList)).output.out
        = "a 1\nError: Token cannot be quoted: 'b \"\x60'\n".toList ∧
      ¬ WholeOrNothing w (words "b \"\x60=1".toList) (i "b \"\x60=1".toList)) ∧
    (parse (words "b\n=1".toList) = .ok (some (i "b\n=1".toList)) ∧
      (run w (words "b\n=1".toList)).ending = .ok 0 ∧
      (run w (words "b\n=1".toList)).output.out = "a 1\n\"b\n\" 1\n".toList ∧
      ¬ WholeOrNothing w (words "b\n=1".toList) (i "b\n=1".toList)) := by
  intro home file w words i
  have hunquotable : parse (words "b \"\x60=1".toList)
      = .ok (some (i "b \"\x60=1".toList)) := by rfl
  have hbroken : parse (words "b\n=1".toList) = .ok (some (i "b\n=1".toList)) := by rfl
  refine ⟨⟨hunquotable, by decide +kernel, by decide +kernel, fun h => ?_⟩,
    ⟨hbroken, by decide +kernel, by decide +kernel, fun h => ?_⟩⟩
  · obtain ⟨m, hreach, hentries⟩ : ∃ m, Reaches w (i "b \"\x60=1".toList) m ∧
        m.entries = [("a".toList, 1), ("b \"\x60".toList, 1)] :=
      exists_reaches rfl (by decide +kernel)
    have hlistable := listable_of_whole hunquotable hreach h
    rw [hentries] at hlistable
    exact absurd hlistable (by decide)
  · obtain ⟨m, hreach, hentries⟩ : ∃ m, Reaches w (i "b\n=1".toList) m ∧
        m.entries = [("a".toList, 1), ("b\n".toList, 1)] :=
      exists_reaches rfl (by decide +kernel)
    have hlistable := listable_of_whole hbroken hreach h
    rw [hentries] at hlistable
    exact absurd hlistable (by decide)

end Command

end Proviso
