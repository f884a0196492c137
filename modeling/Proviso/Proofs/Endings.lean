/-
  How a run ends.

  A run answers with an exit code, or says what is wrong in a last line and ends with the exit code
  1 or 2, or dies of a fault that nothing answers. `Dies` lists the faults with the input that each
  comes from, in the order in which they are met; `Completes` says when a run has done all that its
  command line asks for. By the courses of runs there are no other ends (`run_ending`).

  What can be written at a path is up to the disk, which may refuse it for any reason. Not modelled
  are three ends more that nothing answers: calls that are nested too deep, as for groups about a
  thousand deep; words of the command line that are no text; and characters that the encoding of
  the output lacks. The ends for `Given.blank` (`Dies.blankConfig`, `Action.Dies.blankItem`,
  `blankOutput` and `blankSeed`) are those of release 3.11.0 of the option parser.
-/
import Proviso.Proofs.Courses
import Proviso.Proofs.Refusals
import Proviso.Settings.Lenient

namespace Proviso.Command

open Outline (Draft Position)

variable {v : Settings.Validation}

/-! ## What a run can die of -/

/-- The file of the settings ends a run: it is no text, it holds an integer of too many digits, or
its path can be the path of no file. -/
inductive ConfigDies (disk : Disk) (path : Text) : Fault → Prop where
  | encoding {bytes : List UInt8} {fault : Utf8.Fault}
      (hread : disk.read (Disk.normalize path) = .ok bytes)
      (hdecode : Utf8.decode bytes = .error fault) : ConfigDies disk path (.encoding fault)
  | numeral {bytes : List UInt8} {t : Text} {fault : Numeral.Fault}
      (hread : disk.read (Disk.normalize path) = .ok bytes) (hdecode : Utf8.decode bytes = .ok t)
      (hparse : Toml.Document.parse t = .error (.numeral fault)) :
      ConfigDies disk path (.numeral fault)
  | nullPath (hread : disk.read (Disk.normalize path) = .error .nullCharacter) :
      ConfigDies disk path (.disk (Disk.normalize path) .nullCharacter)

namespace Action

/-- A command has the values and the outline that it works on. -/
structure Opens (disk : Disk) (a : Action) (l : Ledger) (o : Outline) : Prop where
  items : none ∉ a.items
  ledger : Assignment.ledger (leading a.items) = .ok l
  outline : Outline.File.read disk a.file = .ok o

/-- A command has read all lines that it looks at. -/
structure Loads (disk : Disk) (a : Action) (l : Ledger) (o : Outline) : Prop extends
    a.Opens disk l o where
  output : a.output ≠ .blank
  lines : ∃ ps, a.lines? o = some ps ∧ overlongIn ps = none

/-- A command does all that it is asked for. -/
structure Answers (disk : Disk) (a : Action) (l : Ledger) (o : Outline) : Prop extends
    a.Loads disk l o where
  seed : a.seed ≠ .blank
  entries : (a.entries l o).findSome? entryFault? = none
  writes : ∀ path, a.output = .value path → ∃ name, disk.write (Disk.normalize path) = .ok name

/-- A command dies of a fault. -/
inductive Dies (disk : Disk) (a : Action) : Fault → Prop where
  /-- An item is blank, which release 3.11.10 of the option parser does not know, and the items in
  front of it can be assigned. -/
  | blankItem {l : Ledger} (hledger : Assignment.ledger (leading a.items) = .ok l)
      (hblank : none ∈ a.items) : Dies disk a .blankItem
  /-- The path of the file holds the character U+0000. -/
  | nullPath {l : Ledger} (hledger : Assignment.ledger (leading a.items) = .ok l)
      (hitems : none ∉ a.items)
      (hread : disk.read (Disk.normalize a.file) = .error .nullCharacter) :
      Dies disk a (.disk (Disk.normalize a.file) .nullCharacter)
  /-- The output is blank, which release 3.11.10 of the option parser does not know. -/
  | blankOutput {l : Ledger} {o : Outline} (h : a.Opens disk l o) (hblank : a.output = .blank) :
      Dies disk a .blankPath
  /-- An integer in the lines that are looked at has too many digits to be read. -/
  | overlong {l : Ledger} {o : Outline} {ps : List Position} {fault : Numeral.Fault}
      (h : a.Opens disk l o) (houtput : a.output ≠ .blank) (hlines : a.lines? o = some ps)
      (hfault : overlongIn ps = some fault) : Dies disk a (.numeral fault)
  /-- The seed is blank, which release 3.11.10 of the option parser refuses. -/
  | blankSeed {l : Ledger} {o : Outline} (h : a.Loads disk l o) (hblank : a.seed = .blank) :
      Dies disk a .blankSeed
  /-- A value that is to be printed has too many digits to be written. -/
  | entry {l : Ledger} {o : Outline} {fault : Numeral.Fault} (h : a.Loads disk l o)
      (hfault : (a.entries l o).findSome? entryFault? = some (.numeral fault)) :
      Dies disk a (.numeral fault)
  /-- The file cannot be written, for whatever reason the disk has. -/
  | output {l : Ledger} {o : Outline} {path : Text} {fault : Disk.Fault} (h : a.Loads disk l o)
      (houtput : a.output = .value path)
      (hwrite : disk.write (Disk.normalize path) = .error fault) :
      Dies disk a (.disk (Disk.normalize path) fault)

end Action

/-- The settings that hold for an invocation. -/
structure Invocation.Settles (w : World v) (i : Invocation) (s : Settings) : Prop where
  config : i.config ≠ .blank
  load : Settings.load v w.disk i.config.toOption w.environment (i.overrides v) = .ok s

/-- A run of a command line dies of a fault. -/
inductive Dies (w : World v) (words : List Text) : Fault → Prop where
  /-- The path of the settings is blank, which release 3.11.10 of the option parser does not
  know. -/
  | blankConfig {i : Invocation} (hparse : parse words = .ok (some i))
      (hblank : i.config = .blank) : Dies w words .blankPath
  | config {i : Invocation} {path : Text} {fault : Fault} (hparse : parse words = .ok (some i))
      (hpath : i.config = .value path) (h : ConfigDies w.disk path fault) : Dies w words fault
  | action {i : Invocation} {s : Settings} {fault : Fault} (hparse : parse words = .ok (some i))
      (hsettings : i.Settles w s) (h : i.action.Dies w.disk fault) : Dies w words fault

/-- A run of a command line does all that is asked for, and answers with an exit code. -/
inductive Completes (w : World v) (words : List Text) : Nat → Prop where
  | help {program : Text} (hparse : parse words = .error (.help program)) : Completes w words 0
  | noCommand (hparse : parse words = .ok none) : Completes w words 1
  | performed {i : Invocation} {s : Settings} {l : Ledger} {o : Outline}
      (hparse : parse words = .ok (some i)) (hsettings : i.Settles w s)
      (h : i.action.Answers w.disk l o) :
      Completes w words (i.action.code { w with shared := (s.configure w.shared).1 } s l o)

/-! ## Ends of steps -/

section Steps

variable {ε α β : Type} {x : Except ε α} {f : α → Except ε β}

theorem bind_of_ok {a : α} {c : Except ε β} (hx : x = .ok a) (hf : f a = c) :
    (x >>= f) = c := by
  rw [hx]
  exact hf

theorem bind_of_error {e : ε} (hx : x = .error e) : (x >>= f) = .error e := by
  rw [hx]
  rfl

theorem of_bind_eq_ok {b : β} (h : (x >>= f) = .ok b) : ∃ a, x = .ok a ∧ f a = .ok b := by
  cases x with
  | ok a => exact ⟨a, rfl, h⟩
  | error e => exact nomatch h

theorem Given.course_of_ne_blank {g : Given α} {fault : Fault} (h : g ≠ .blank) :
    g.course fault = .ok g.toOption := by
  cases g with
  | blank => exact absurd rfl h
  | no => rfl
  | value a => rfl

theorem Given.course_of_blank {g : Given α} {fault : Fault} (h : g = .blank) :
    g.course fault = .error (.died fault) := by
  rw [h]
  rfl

theorem Given.eq_value_of_toOption {g : Given α} {a : α} (h : g.toOption = some a) :
    g = .value a := by
  cases g with
  | value b => exact congrArg Given.value (Option.some.inj h)
  | _ => exact nomatch h

variable {items : List (Option Text)} {l : Ledger}
  (hledger : Assignment.ledger (leading items) = .ok l)

include hledger in
theorem assigned_of_blank (hblank : none ∈ items) :
    assigned items = .error (.died .blankItem) := by
  unfold assigned
  rw [hledger]
  exact if_pos hblank

include hledger in
theorem assigned_of_ledger (hitems : none ∉ items) : assigned items = .ok l := by
  unfold assigned
  rw [hledger]
  exact if_neg hitems

theorem assigned_of_fault {fault : Assignment.Fault}
    (h : Assignment.ledger (leading items) = .error fault) : assigned items = .error .misused := by
  unfold assigned
  rw [h]

variable {disk : Disk} {file : Text}

theorem opened_of_nullPath (h : disk.read (Disk.normalize file) = .error .nullCharacter) :
    opened disk file = .error (.died (.disk (Disk.normalize file) .nullCharacter)) := by
  unfold opened Outline.File.read
  dsimp only
  rw [h]
  rfl

theorem opened_of_fault {fault : Outline.File.Fault}
    (h : Outline.File.read disk file = .error fault)
    (hread : disk.read (Disk.normalize file) ≠ .error .nullCharacter) :
    opened disk file = .error .refused := by
  unfold opened Outline.File.read Outline.File.ofBytes at *
  dsimp only at *
  cases hbytes : disk.read (Disk.normalize file) with
  | error f =>
    cases f with
    | nullCharacter => exact absurd hbytes hread
    | _ => rfl
  | ok bytes =>
    rw [hbytes] at h
    dsimp only at h ⊢
    cases hdecode : Utf8.decodeFile bytes with
    | error f => rfl
    | ok t =>
      rw [hdecode] at h
      exact nomatch h

end Steps

/-! ## What becomes of the settings -/

theorem ConfigDies.tableOfFile_eq {disk : Disk} {path : Text} {fault : Fault}
    (h : ConfigDies disk path fault) :
    ∃ f, Settings.tableOfFile disk path = .error f ∧ Finish.ofSettings f = .died fault := by
  cases h with
  | encoding hread hdecode =>
    rw [Settings.tableOfFile_of_read hread, Settings.tableOfBytes, hdecode]
    exact ⟨_, rfl, rfl⟩
  | numeral hread hdecode hparse =>
    rw [Settings.tableOfFile_of_read hread, Settings.tableOfBytes, hdecode]
    dsimp only
    rw [hparse]
    exact ⟨_, rfl, rfl⟩
  | nullPath hread =>
    unfold Settings.tableOfFile
    dsimp only
    rw [hread]
    exact ⟨_, rfl, rfl⟩

theorem ofSettings_of_isMistake {f : Settings.Fault} (h : f.IsMistake) :
    Finish.ofSettings f = .refused := by
  cases f with
  | encoding fault => exact h.elim
  | numeral fault => exact h.elim
  | badPath path => exact h.elim
  | _ => rfl

/-- A file that the run does not die of is answered. -/
theorem tableOfFile_cases (disk : Disk) (path : Text) :
    (∃ fault, ConfigDies disk path fault) ∨
      ∀ f, Settings.tableOfFile disk path = .error f → Finish.ofSettings f = .refused := by
  by_cases hdies : ∃ fault, ConfigDies disk path fault
  · exact .inl hdies
  · have hanswerable : Settings.Answerable disk path := by
      refine ⟨fun hread => hdies ⟨_, .nullPath hread⟩, fun bytes hread => ?_⟩
      cases hdecode : Utf8.decode bytes with
      | error fault => exact absurd ⟨_, .encoding hread hdecode⟩ hdies
      | ok t => exact ⟨t, rfl, fun fault hparse => hdies ⟨_, .numeral hread hdecode hparse⟩⟩
    refine .inr fun f hf => ofSettings_of_isMistake ?_
    exact (Settings.tableOfFile_refused_iff disk path).2 hanswerable f hf

section Settle

variable {w : World v} {i : Invocation}

theorem Invocation.Settles.settings_eq {s : Settings} (h : i.Settles w s) :
    i.settings w = .ok s :=
  bind_of_ok (Given.course_of_ne_blank h.config)
    (congrArg (Except.mapError Finish.ofSettings) h.load)

theorem settings_of_configDies {path : Text} {fault : Fault} (hpath : i.config = .value path)
    (h : ConfigDies w.disk path fault) : i.settings w = .error (.died fault) := by
  obtain ⟨f, hf, hdied⟩ := h.tableOfFile_eq
  have hload := Settings.load_of_tableOfFile hf w.environment (i.overrides v)
  unfold Invocation.settings
  rw [hpath, ← hdied]
  exact bind_of_ok rfl (congrArg (Except.mapError Finish.ofSettings) hload)

theorem settings_cases (w : World v) (i : Invocation) :
    (∃ s, i.Settles w s) ∨ i.config = .blank ∨
      (∃ path fault, i.config = .value path ∧ ConfigDies w.disk path fault) ∨
      i.settings w = .error .refused := by
  by_cases hconfig : i.config = .blank
  · exact .inr (.inl hconfig)
  · cases hload : Settings.load v w.disk i.config.toOption w.environment (i.overrides v) with
    | ok s => exact .inl ⟨s, hconfig, hload⟩
    | error f =>
      have hsettings : i.settings w = .error (.ofSettings f) :=
        bind_of_ok (Given.course_of_ne_blank hconfig) (congrArg (Except.mapError _) hload)
      rcases Settings.load_eq_error hload with ⟨rejections, rfl⟩ | ⟨path, hpath, hfile⟩
      · exact .inr (.inr (.inr hsettings))
      · rcases tableOfFile_cases w.disk path with ⟨fault, hdies⟩ | hrefused
        · exact .inr (.inr (.inl ⟨path, fault, Given.eq_value_of_toOption hpath, hdies⟩))
        · exact .inr (.inr (.inr (hrefused f hfile ▸ hsettings)))

end Settle

/-! ## What a command comes to -/

namespace Action

variable {w : World v} {s : Settings} {a : Action} {l : Ledger} {o : Outline} {fault : Fault}

/-- What prints entries is given no seed. -/
theorem seed_of_entries {f : Draft.Fault} (h : (a.entries l o).findSome? entryFault? = some f) :
    a.seed = .no := by
  cases a with
  | test file items key seed => exact nomatch h
  | _ => rfl

/-- What writes a file is given no seed and prints no entries. -/
theorem of_output {path : Text} (h : a.output = .value path) :
    a.seed = .no ∧ a.entries l o = [] := by
  cases a with
  | format file output => exact ⟨rfl, rfl⟩
  | _ => exact nomatch h

theorem Opens.course_eq (h : a.Opens w.disk l o) :
    a.course w s = (a.output.course .blankPath >>= fun _ => required (a.lines? o) >>= fun ps =>
      readable (overlongIn ps) >>= fun _ => a.finish w s l o) :=
  bind_of_ok (assigned_of_ledger h.ledger h.items)
    (bind_of_ok (congrArg (Except.mapError Finish.ofFile) h.outline) rfl)

theorem Loads.course_eq (h : a.Loads w.disk l o) : a.course w s = a.finish w s l o := by
  obtain ⟨ps, hps, hnone⟩ := h.lines
  rw [h.toOpens.course_eq, hps]
  refine bind_of_ok (Given.course_of_ne_blank h.output) ?_
  show (readable (overlongIn ps) >>= fun _ => a.finish w s l o) = _
  rw [hnone]
  rfl

theorem Answers.course_eq (h : a.Answers w.disk l o) :
    a.course w s = answered (a.code w s l o) := by
  have hwritten : written (a.entries l o) = .ok () := by
    unfold written
    rw [h.entries]
  have hsaved : saved w.disk a.output.toOption = .ok () := by
    cases houtput : a.output.toOption with
    | none => rfl
    | some path =>
      obtain ⟨name, hname⟩ := h.writes path (Given.eq_value_of_toOption houtput)
      unfold saved
      dsimp only
      rw [hname]
  rw [h.toLoads.course_eq]
  exact bind_of_ok (Given.course_of_ne_blank h.seed) (bind_of_ok hwritten (bind_of_ok hsaved rfl))

theorem Dies.course_eq (h : a.Dies w.disk fault) : a.course w s = .error (.died fault) := by
  cases h with
  | blankItem hledger hblank => exact bind_of_error (assigned_of_blank hledger hblank)
  | nullPath hledger hitems hread =>
    exact bind_of_ok (assigned_of_ledger hledger hitems) (bind_of_error (opened_of_nullPath hread))
  | blankOutput hopens hblank =>
    rw [hopens.course_eq]
    exact bind_of_error (Given.course_of_blank hblank)
  | overlong hopens houtput hlines hfault =>
    rw [hopens.course_eq, hlines]
    refine bind_of_ok (Given.course_of_ne_blank houtput) (bind_of_ok rfl (bind_of_error ?_))
    rw [hfault]
    rfl
  | blankSeed hloads hblank =>
    rw [hloads.course_eq]
    exact bind_of_error (Given.course_of_blank hblank)
  | entry hloads hfault =>
    rw [hloads.course_eq, finish, seed_of_entries hfault]
    refine bind_of_ok rfl (bind_of_error ?_)
    unfold written
    rw [hfault]
    rfl
  | output hloads houtput hwrite =>
    obtain ⟨hseed, hentries⟩ := of_output houtput
    rw [hloads.course_eq, finish, hseed, hentries, houtput]
    refine bind_of_ok rfl (bind_of_ok rfl (bind_of_error ?_))
    show saved w.disk (some _) = _
    unfold saved
    dsimp only
    rw [hwrite]

/-- A command dies, or something is wrong and a line says so. -/
def Fails (w : World v) (s : Settings) (a : Action) : Prop :=
  (∃ fault, a.Dies w.disk fault) ∨ a.course w s = .error .refused ∨ a.course w s = .error .misused

theorem opens_or_fails (w : World v) (s : Settings) (a : Action) :
    (∃ l o, a.Opens w.disk l o) ∨ a.Fails w s := by
  cases hledger : Assignment.ledger (leading a.items) with
  | error f => exact .inr (.inr (.inr (bind_of_error (assigned_of_fault hledger))))
  | ok l =>
    by_cases hitems : none ∈ a.items
    · exact .inr (.inl ⟨_, .blankItem hledger hitems⟩)
    · cases houtline : Outline.File.read w.disk a.file with
      | ok o => exact .inl ⟨l, o, hitems, hledger, houtline⟩
      | error f =>
        by_cases hread : w.disk.read (Disk.normalize a.file) = .error .nullCharacter
        · exact .inr (.inl ⟨_, .nullPath hledger hitems hread⟩)
        · have hrefused := opened_of_fault houtline hread
          exact .inr (.inr (.inl (bind_of_ok (assigned_of_ledger hledger hitems)
            (bind_of_error hrefused))))

theorem Opens.loads_or_fails (h : a.Opens w.disk l o) : a.Loads w.disk l o ∨ a.Fails w s := by
  by_cases houtput : a.output = .blank
  · exact .inr (.inl ⟨_, .blankOutput h houtput⟩)
  · cases hlines : a.lines? o with
    | none =>
      have hrefused : a.course w s = .error .refused := by
        rw [h.course_eq, hlines]
        exact bind_of_ok (Given.course_of_ne_blank houtput) rfl
      exact .inr (.inr (.inl hrefused))
    | some ps =>
      cases hoverlong : overlongIn ps with
      | some f => exact .inr (.inl ⟨_, .overlong h houtput hlines hoverlong⟩)
      | none => exact .inl ⟨h, houtput, ps, hlines, hoverlong⟩

theorem Loads.answers_or_fails (h : a.Loads w.disk l o) : a.Answers w.disk l o ∨ a.Fails w s := by
  by_cases hseed : a.seed = .blank
  · exact .inr (.inl ⟨_, .blankSeed h hseed⟩)
  · cases hentries : (a.entries l o).findSome? entryFault? with
    | some f =>
      have hwritten : a.course w s = .error (.ofDraft f) := by
        rw [h.course_eq, finish, seed_of_entries hentries]
        refine bind_of_ok rfl (bind_of_error ?_)
        unfold written
        rw [hentries]
      cases f with
      | numeral f => exact .inr (.inl ⟨_, .entry h hentries⟩)
      | _ => exact .inr (.inr (.inl hwritten))
    | none =>
      by_cases hwrites : ∀ path, a.output = .value path →
          ∃ name, w.disk.write (Disk.normalize path) = .ok name
      · exact .inl ⟨h, hseed, hentries, hwrites⟩
      · push Not at hwrites
        obtain ⟨path, hpath, hnone⟩ := hwrites
        cases hwrite : w.disk.write (Disk.normalize path) with
        | error f => exact .inr (.inl ⟨_, .output h hpath hwrite⟩)
        | ok name => exact absurd hwrite (hnone name)

theorem answers_or_fails (w : World v) (s : Settings) (a : Action) :
    (∃ l o, a.Answers w.disk l o) ∨ a.Fails w s := by
  rcases opens_or_fails w s a with ⟨l, o, hopens⟩ | hfails
  · rcases hopens.loads_or_fails (s := s) with hloads | hfails
    · exact hloads.answers_or_fails.imp_left fun hanswers => ⟨l, o, hanswers⟩
    · exact .inr hfails
  · exact .inr hfails

end Action

/-! ## What a run comes to -/

/-- How a run with a course ends. -/
def outcome : Except Finish Unit → Except Fault Nat
  | .ok () => .ok 0
  | .error (.answer code) => .ok code
  | .error .refused => .ok 1
  | .error .misused => .ok 2
  | .error (.died fault) => .error fault

theorem outcome_answered (code : Nat) : outcome (answered code) = .ok code := by
  unfold answered
  split
  · rename_i hzero
    rw [hzero]
    rfl
  · rfl

section Ends

variable {w : World v} {words : List Text}

theorem course_of_invocation {i : Invocation} (hparse : parse words = .ok (some i)) :
    course w words = (i.settings w >>= fun s =>
      i.action.course { w with shared := (s.configure w.shared).1 } s) := by
  unfold course
  rw [hparse]

theorem Dies.course_eq {fault : Fault} (h : Dies w words fault) :
    course w words = .error (.died fault) := by
  cases h with
  | blankConfig hparse hblank =>
    rw [course_of_invocation hparse]
    exact bind_of_error (bind_of_error (Given.course_of_blank hblank))
  | config hparse hpath hdies =>
    rw [course_of_invocation hparse]
    exact bind_of_error (settings_of_configDies hpath hdies)
  | action hparse hsettings hdies =>
    rw [course_of_invocation hparse]
    exact bind_of_ok hsettings.settings_eq (Action.Dies.course_eq hdies)

theorem Completes.outcome_eq {code : Nat} (h : Completes w words code) :
    outcome (course w words) = .ok code := by
  cases h with
  | help hparse =>
    unfold course
    rw [hparse]
    rfl
  | noCommand hparse =>
    unfold course
    rw [hparse]
    rfl
  | @performed i s l o hparse hsettings hanswers =>
    have hcourse : course w words = _ :=
      (course_of_invocation hparse).trans (bind_of_ok hsettings.settings_eq
        (Action.Answers.course_eq (w := { w with shared := (s.configure w.shared).1 }) hanswers))
    rw [hcourse, outcome_answered]

/-- A run completes or dies, or something is wrong and a line says so. -/
theorem course_cases (w : World v) (words : List Text) :
    (∃ code, Completes w words code) ∨ (∃ fault, Dies w words fault) ∨
      course w words = .error .refused ∨ course w words = .error .misused := by
  cases hparse : parse words with
  | error stop =>
    cases stop with
    | help program => exact .inl ⟨0, .help hparse⟩
    | usage program message =>
      refine .inr (.inr (.inr ?_))
      unfold course
      rw [hparse]
  | ok asked =>
    cases asked with
    | none => exact .inl ⟨1, .noCommand hparse⟩
    | some i =>
      rw [course_of_invocation hparse]
      rcases settings_cases w i with ⟨s, hs⟩ | hblank | ⟨path, fault, hpath, hdies⟩ | hrefused
      · rw [hs.settings_eq]
        rcases Action.answers_or_fails { w with shared := (s.configure w.shared).1 } s i.action with
          ⟨l, o, hanswers⟩ | ⟨fault, hdies⟩ | hrefused | hmisused
        · exact .inl ⟨_, .performed hparse hs hanswers⟩
        · exact .inr (.inl ⟨fault, .action hparse hs hdies⟩)
        · exact .inr (.inr (.inl hrefused))
        · exact .inr (.inr (.inr hmisused))
      · exact .inr (.inl ⟨_, .blankConfig hparse hblank⟩)
      · exact .inr (.inl ⟨fault, .config hparse hpath hdies⟩)
      · exact .inr (.inr (.inl (bind_of_error hrefused)))

/-- A run ends as its course says, and shows an end for a mistake. -/
theorem run_follows (w : World v) (words : List Text) :
    (run w words).ending = outcome (course w words) ∧
      ∀ finish, course w words = .error finish → finish.ShownIn (run w words).output := by
  obtain ⟨o, -, hrun, hshown⟩ := Follows.main w words ⟨[], [], none⟩ ⟨whole_nil, whole_nil⟩
  unfold run
  rw [hrun]
  cases hcourse : course w words with
  | ok a => exact ⟨rfl, fun _ h => nomatch h⟩
  | error finish =>
    cases finish with
    | answer code => exact ⟨rfl, fun _ h => Except.error.inj h ▸ trivial⟩
    | refused => exact ⟨rfl, fun _ h => hshown _ (hcourse.trans h)⟩
    | misused => exact ⟨rfl, fun _ h => hshown _ (hcourse.trans h)⟩
    | died fault => exact ⟨rfl, fun _ h => Except.error.inj h ▸ trivial⟩

end Ends

/-- A run dies of the faults of `Dies`, and of no others. A run that has done all that its command
line asks for answers with the exit code that this gives, and every run that ends with an exit code
either has done so, or ends with the exit code 1 after a line printed about what is wrong, or with
the exit code 2 after a line logged about what is wrong with the command line. -/
theorem run_ending (w : World v) (words : List Text) :
    (∀ fault, (run w words).ending = .error fault ↔ Dies w words fault) ∧
    (∀ code, Completes w words code → (run w words).ending = .ok code) ∧
    ∀ code, (run w words).ending = .ok code →
      Completes w words code ∨ (code = 1 ∧ (run w words).output.SaysError) ∨
        (code = 2 ∧ (run w words).output.SaysUsage) := by
  obtain ⟨hending, hshown⟩ := run_follows w words
  rw [hending]
  refine ⟨fun fault => ⟨fun h => ?_, fun h => ?_⟩, fun code h => h.outcome_eq, fun code h => ?_⟩
  · rcases course_cases w words with ⟨code, hcode⟩ | ⟨fault', hdies⟩ | hrefused | hmisused
    · rw [hcode.outcome_eq] at h
      exact nomatch h
    · rw [hdies.course_eq] at h
      exact Except.error.inj h ▸ hdies
    · rw [hrefused] at h
      exact nomatch h
    · rw [hmisused] at h
      exact nomatch h
  · rw [h.course_eq]
    rfl
  · rcases course_cases w words with ⟨code', hcode⟩ | ⟨fault, hdies⟩ | hrefused | hmisused
    · rw [hcode.outcome_eq] at h
      exact .inl (Except.ok.inj h ▸ hcode)
    · rw [hdies.course_eq] at h
      exact nomatch h
    · have hsays := hshown _ hrefused
      rw [hrefused] at h
      exact .inr (.inl ⟨(Except.ok.inj h).symm, hsays⟩)
    · have hsays := hshown _ hmisused
      rw [hmisused] at h
      exact .inr (.inr ⟨(Except.ok.inj h).symm, hsays⟩)

/-- A run that prints what it writes completes, and one that is to put it where no directory is
dies of that. -/
theorem run_ending_of_format :
    let home : List Text := ["home".toList]
    let file : Text := "data.txt".toList
    let output : Text := "missing/out.txt".toList
    let w : World .lenient :=
      ⟨Disk.ofEntries home [(home ++ [file], .file [97, 10])], .none, .ofSeed 0⟩
    Completes w ["format".toList, file] 0 ∧
      Dies w ["format".toList, file, "--output".toList, output] (.disk output .notFound) := by
  intro home file output w
  have hcomplete : (run w ["format".toList, file]).ending = .ok 0 := by decide +kernel
  refine ⟨?_, ((run_ending w _).1 _).1 (by decide +kernel)⟩
  rcases (run_ending w _).2.2 0 hcomplete with h | ⟨h, -⟩ | ⟨h, -⟩
  · exact h
  · exact absurd h (by decide)
  · exact absurd h (by decide)

/-- A run dies where the directory for what it writes is missing. -/
theorem format_dies_of_missing_directory :
    let home : List Text := ["home".toList]
    let file : Text := "data.txt".toList
    let output : Text := "missing/out.txt".toList
    let disk := Disk.ofEntries home [(home ++ [file], .file [97, 10])]
    let w : World .lenient := ⟨disk, .none, .ofSeed 0⟩
    (run w ["format".toList, file, "--output".toList, output]).ending
      = .error (.disk output .notFound) := by
  decide +kernel

end Proviso.Command
