/-
  The course of a run.

  A run prints and logs as it goes, but how it ends does not depend on the output. The course of a
  step is what it comes to without any output: a value, or an end. The steps that get things ready
  for a command are put together from a few plain ones, so what is said of these by their courses
  (a `Judgement`) is true of all of them. `Follows` says of a step that from every output it comes
  to what its course says, and that an end for a mistake is shown by the line that was printed or
  logged last. Every command follows the course that is made of the courses of its steps
  (`Follows.perform`), and so does a whole run (`Follows.main`).
-/
import Proviso.Command.Run
import Proviso.Proofs.Reporting
import Proviso.Proofs.Sessions
import Proviso.Proofs.Usage

namespace Proviso.Command

open Outline (Draft Position)

variable {v : Settings.Validation}

/-! ## Whole lines -/

/-- The text is empty or ends with the end of a line. -/
def Whole (t : Text) : Prop := ∀ c ∈ t.getLast?, c = '\n'

theorem whole_nil : Whole [] := fun c hc => absurd hc (by simp)

theorem whole_snoc (t : Text) : Whole (t ++ ['\n']) := by
  intro c hc
  rw [List.getLast?_concat] at hc
  exact (Option.some.inj hc).symm

theorem Whole.append {t u : Text} (ht : Whole t) (hu : Whole u) : Whole (t ++ u) := by
  intro c hc
  rw [List.getLast?_append] at hc
  cases hlast : u.getLast? with
  | none => exact ht c (by simpa [hlast] using hc)
  | some d => exact hu c (by simpa [hlast] using hc)

theorem whole_unlines (ls : List Text) : Whole (Text.unlines ls) := by
  induction ls with
  | nil => exact whole_nil
  | cons l ls ih =>
    have hcons : Text.unlines (l :: ls) = l ++ ['\n'] ++ Text.unlines ls := List.flatMap_cons
    rw [hcons]
    exact (whole_snoc l).append ih

theorem whole_usage (program : Text) : Whole (Run.usage program) := by
  have hsnoc : Run.usage program
      = "usage: ".toList ++ program ++ " [options] ...".toList ++ ['\n'] := by
    rw [List.append_assoc]
    rfl
  rw [hsnoc]
  exact whole_snoc _

namespace Output

/-- No line is printed or logged in part. -/
structure InLines (o : Output) : Prop where
  out : Whole o.out
  err : Whole o.err

/-- What is printed last says what is wrong. -/
def SaysError (o : Output) : Prop :=
  ∃ before message, Whole before ∧ o.out = before ++ ("Error: ".toList ++ message ++ ['\n'])

/-- What is logged last says, in the name of the program or a command, what is wrong with the
command line. -/
def SaysUsage (o : Output) : Prop :=
  ∃ before program message, Whole before ∧ IsProgram program ∧
    o.err = before ++ (program ++ ": error: ".toList ++ message ++ ['\n'])

end Output

/-! ## Ends -/

/-- What ends a run before its last step. -/
inductive Finish where
  /-- The answer of the command is an exit code. -/
  | answer (code : Nat)
  /-- Something is wrong, and a line says so. -/
  | refused
  /-- The command line is wrong, and a line says so. -/
  | misused
  /-- Nothing answers a fault. -/
  | died (fault : Fault)

namespace Finish

/-- How the run ends. -/
def ending : Finish → Ending
  | .answer code => .exit code
  | .refused => .exit 1
  | .misused => .exit 2
  | .died fault => .died fault

/-- A mistake is shown by the last line of the output. -/
def ShownIn (o : Output) : Finish → Prop
  | .refused => o.SaysError
  | .misused => o.SaysUsage
  | _ => True

/-- What a fault in writing ends in. -/
def ofDraft : Draft.Fault → Finish
  | .numeral fault => .died (.numeral fault)
  | _ => .refused

/-- What a fault of a file ends in. -/
def ofFile (fault : Outline.File.Fault) : Finish :=
  match fault.cause with
  | .disk .nullCharacter => .died (.disk fault.path .nullCharacter)
  | _ => .refused

/-- What a fault in the settings ends in. -/
def ofSettings : Settings.Fault → Finish
  | .encoding fault => .died (.encoding fault)
  | .numeral fault => .died (.numeral fault)
  | .badPath path => .died (.disk path .nullCharacter)
  | _ => .refused

end Finish

/-! ## Courses of steps -/

/-- What is said by an option that is given. -/
def Given.toOption {α : Type} : Given α → Option α
  | .value a => some a
  | _ => none

/-- What an option says, where one without an argument is a fault. -/
def Given.course {α : Type} (fault : Fault) : Given α → Except Finish (Option α)
  | .blank => .error (.died fault)
  | g => .ok g.toOption

/-- The items in front of the first one that is blank. -/
def leading (items : List (Option Text)) : List Text := (items.takeWhile Option.isSome).filterMap id

theorem length_leading_lt_iff {items : List (Option Text)} :
    (leading items).length < items.length ↔ none ∈ items := by
  induction items with
  | nil => simp [leading]
  | cons item items ih =>
    cases item with
    | none => simp [leading]
    | some item => simpa [leading] using ih

theorem toOption_of_course {α : Type} {fault : Fault} {g : Given α} {given : Option α}
    (h : g.course fault = .ok given) : g.toOption = given := by
  cases g with
  | blank => exact nomatch h
  | no => exact Except.ok.inj h
  | value a => exact Except.ok.inj h

/-- What the caller says about the settings: a level that is empty or blank counts as not given. -/
def Invocation.overrides (v : Settings.Validation) (i : Invocation) : Settings.Layer v.Raw :=
  match i.level with
  | .value (c :: cs) => ⟨none, some (v.ofText (c :: cs)), none⟩
  | _ => .none

/-- The settings of an invocation. -/
def Invocation.settings (w : World v) (i : Invocation) : Except Finish Settings := do
  let path ← i.config.course .blankPath
  (Settings.load v w.disk path w.environment (i.overrides v)).mapError .ofSettings

/-- The ledger of assigned values. -/
def assigned (items : List (Option Text)) : Except Finish Ledger :=
  match Assignment.ledger (leading items) with
  | .error _ => .error .misused
  | .ok l => if none ∈ items then .error (.died .blankItem) else .ok l

/-- The outline of a file. -/
def opened (disk : Disk) (file : Text) : Except Finish Outline :=
  (Outline.File.read disk file).mapError .ofFile

/-- The header of the rule to be used: the first one, or the one that a key spells. -/
def chosen? (o : Outline) : Given Text → Option Position
  | .no => o.position? 0
  | .value key => (o.findIdx? key).bind o.position?
  | .blank => none

/-- The first numeral that is too long in the lines at some positions. -/
def overlongIn (ps : List Position) : Option Numeral.Fault :=
  ps.findSome? (·.node.line.overlong?)

/-- What is read from a file is the outline of a text. -/
theorem exists_parse_of_opened {disk : Disk} {file : Text} {o : Outline}
    (h : opened disk file = .ok o) : ∃ source t, o = .parse source t := by
  unfold opened Outline.File.read Outline.File.ofBytes at h
  dsimp only at h
  split at h
  · exact nomatch h
  · split at h
    · exact nomatch h
    · exact ⟨_, _, (Except.ok.inj h).symm⟩

/-- Formatting what is read from a file stops where loading it does. -/
theorem fault_formatting {disk : Disk} {file : Text} {o : Outline}
    (h : opened disk file = .ok o) :
    (Formatting.ofOutline o).fault = (overlongIn o.visited).map .numeral := by
  obtain ⟨source, t, rfl⟩ := exists_parse_of_opened h
  rw [overlongIn, ← Collection.fault_ofOutline]
  exact Formatting.fault_ofNodes (fun n hn => Outline.storable_of_mem_nodesOf hn) _

/-- What has to be there. -/
def required {α : Type} : Option α → Except Finish α
  | some a => .ok a
  | none => .error .refused

/-- No numeral is too long. -/
def readable : Option Numeral.Fault → Except Finish Unit
  | some fault => .error (.died (.numeral fault))
  | none => .ok ()

theorem fault_of_readable {fault : Option Numeral.Fault} (h : readable fault = .ok ()) :
    fault = none := by
  cases fault with
  | some fault => exact absurd h (by simp [readable])
  | none => rfl

/-- The fault of an entry that cannot be written. -/
def entryFault? (e : Text × Int) : Option Draft.Fault :=
  (Outline.Word.token e.1).fault?.or (Outline.Word.integer e.2).fault?

/-- Entries are written up to the first that cannot be. -/
def written (es : List (Text × Int)) : Except Finish Unit :=
  match es.findSome? entryFault? with
  | some fault => .error (.ofDraft fault)
  | none => .ok ()

/-- A text is put where a path says, if there is one. -/
def saved (disk : Disk) : Option Text → Except Finish Unit
  | none => .ok ()
  | some path =>
    match disk.write (Disk.normalize path) with
    | .error fault => .error (.died (.disk (Disk.normalize path) fault))
    | .ok _ => .ok ()

/-- An exit code other than 0 ends the run before its last step. -/
def answered (code : Nat) : Except Finish Unit := if code = 0 then .ok () else .error (.answer code)

/-! ## Courses of commands -/

namespace Action

/-- The file that a command reads. -/
def file : Action → Text
  | .check file => file
  | .test file _ _ _ => file
  | .apply file _ _ => file
  | .format file _ => file

/-- The items that a command is given. -/
def items : Action → List (Option Text)
  | .test _ items _ _ => items
  | .apply _ items _ => items
  | _ => []

/-- The path that a command is given for what it writes. -/
def output : Action → Given Text
  | .format _ output => output
  | _ => .no

/-- The lines that a command looks at: those below all headers, or those below the one that is
chosen. -/
def lines? (o : Outline) : Action → Option (List Position)
  | .check _ => some o.visited
  | .test _ _ key _ => (chosen? o key).map Position.visited
  | .apply _ _ key => (chosen? o key).map Position.visited
  | .format _ _ => some o.visited

/-- The seed that a command is given. -/
def seed : Action → Given Int
  | .test _ _ _ seed => seed
  | _ => .no

/-- The entries that a command prints. -/
def entries (l : Ledger) (o : Outline) : Action → List (Text × Int)
  | .apply _ _ key => ((chosen? o key).map fun p => (p.node.rule.apply l).entries).getD []
  | _ => []

/-- The exit code that a command answers with if nothing goes wrong. -/
def code (w : World v) (s : Settings) (l : Ledger) (o : Outline) : Action → Nat
  | .check _ =>
    let c := Collection.ofOutline o
    if Check.fails s.strict c.reports.length (Check.warnings o.nodes c.rules).length then 1 else 0
  | .test _ _ key seed =>
    let generator := seed.toOption.elim w.shared .ofSeed
    if (chosen? o key).any fun p => (p.node.rule.test .twister l generator).1 then 0 else 2
  | _ => 0

/-- What a command comes to when the lines that it looks at have been read. -/
def finish (w : World v) (s : Settings) (l : Ledger) (o : Outline) (a : Action) :
    Except Finish Unit := do
  let _ ← a.seed.course .blankSeed
  written (a.entries l o)
  saved w.disk a.output.toOption
  answered (a.code w s l o)

/-- What a command comes to. -/
def course (w : World v) (s : Settings) (a : Action) : Except Finish Unit := do
  let l ← assigned a.items
  let o ← opened w.disk a.file
  let _ ← a.output.course .blankPath
  let ps ← required (a.lines? o)
  readable (overlongIn ps)
  a.finish w s l o

end Action

/-- What a command line comes to. -/
def course (w : World v) (words : List Text) : Except Finish Unit :=
  match parse words with
  | .error (.help _) => .error (.answer 0)
  | .error (.usage _ _) => .error .misused
  | .ok none => .error (.answer 1)
  | .ok (some i) => do
    let s ← i.settings w
    i.action.course { w with shared := (s.configure w.shared).1 } s

/-! ## Judging steps -/

/-- A judgement of steps by their courses that holds of the steps that print nothing, or no more
than what is wrong, and of steps one after another if it holds of each. -/
structure Judgement (J : ∀ {α : Type}, Run α → Except Finish α → Prop) : Prop where
  pure {α : Type} (a : α) : J (pure a) (.ok a)
  bind {α β : Type} {r : Run α} {c : Except Finish α} {f : α → Run β} {g : α → Except Finish β}
    (hr : J r c) (hf : ∀ a, c = .ok a → J (f a) (g a)) : J (r >>= f) (c >>= g)
  log (level : Log.Level) (records : List Log.Record) : J (Run.log level records) (.ok ())
  die {α : Type} (fault : Fault) : J (Run.die fault : Run α) (.error (.died fault))
  refuse {α : Type} (message : Text) : J (Run.refuse message : Run α) (.error .refused)
  refuseUsage {α : Type} {program : Text} (h : IsProgram program) (message : Text) :
    J (Run.refuseUsage program message : Run α) (.error .misused)

namespace Judgement

variable {J : ∀ {α : Type}, Run α → Except Finish α → Prop} (hJ : Judgement J) {α β : Type}

include hJ

/-- A step that always comes to the same value does not change how the next one ends. -/
theorem after {r : Run α} {a : α} {f : α → Run β} {c : Except Finish β} (hr : J r (.ok a))
    (hf : J (f a) c) : J (r >>= f) c :=
  hJ.bind hr (g := fun _ => c) fun _ h => Except.ok.inj h ▸ hf

theorem failDraft (fault : Draft.Fault) :
    J (Run.failDraft fault : Run α) (.error (.ofDraft fault)) := by
  cases fault with
  | numeral fault => exact hJ.die _
  | unquotable => exact hJ.refuse _
  | notOpen => exact hJ.refuse _
  | stillOpen => exact hJ.refuse _
  | noPath => exact hJ.refuse _

theorem readOutline (w : World v) (file : Text) :
    J (Run.readOutline w file) (opened w.disk file) := by
  unfold Run.readOutline opened
  cases Outline.File.read w.disk file with
  | ok o => exact hJ.pure o
  | error fault =>
    obtain ⟨path, cause⟩ := fault
    cases cause with
    | encoding fault => exact hJ.refuse _
    | disk fault =>
      cases fault with
      | nullCharacter => exact hJ.die _
      | _ => exact hJ.refuse _

theorem readPath (g : Given Text) : J (Run.readPath g) (g.course .blankPath) := by
  cases g with
  | no => exact hJ.pure none
  | blank => exact hJ.die _
  | value path => exact hJ.pure (some path)

/-- The generator is the one for the seed if there is one, and else the shared one. -/
theorem generator {w : World v} {seed : Given Int} {f : Twister → Run α} {c : Except Finish α}
    (hf : J (f (seed.toOption.elim w.shared .ofSeed)) c) :
    J (Run.generator w seed >>= f) (seed.course .blankSeed >>= fun _ => c) := by
  cases seed with
  | no => exact hJ.after (hJ.pure _) hf
  | blank => exact hJ.bind (hJ.die _) (g := fun _ => c) fun _ h => nomatch h
  | value n => exact hJ.after (hJ.pure _) hf

theorem loadSettings (w : World v) (i : Invocation) :
    J (Run.loadSettings w i.config i.level) (i.settings w) := by
  unfold Run.loadSettings Invocation.settings
  refine hJ.bind (hJ.readPath i.config) fun path _ => ?_
  -- The layer of the caller that the step builds on the spot is `i.overrides v`.
  split
  · rename_i s hs
    have hload : Settings.load v w.disk path w.environment (i.overrides v) = .ok s := hs
    rw [hload]
    exact hJ.pure s
  · rename_i fault hfault
    have hload : Settings.load v w.disk path w.environment (i.overrides v) = .error fault := hfault
    rw [hload]
    cases fault with
    | encoding fault => exact hJ.die _
    | numeral fault => exact hJ.die _
    | badPath path => exact hJ.die _
    | _ => exact hJ.refuse _

theorem configure (w : World v) (s : Settings) :
    J (Run.configure w s) (.ok (s.configure w.shared).1) := by
  unfold Run.configure
  dsimp only
  cases (s.configure w.shared).2 with
  | ok records => exact hJ.after (hJ.log _ _) (hJ.pure _)
  | error fault => exact hJ.pure _

theorem readItems (items : List (Option Text)) : J (Run.readItems items) (assigned items) := by
  have hleading : (items.takeWhile Option.isSome).filterMap id = leading items := rfl
  unfold Run.readItems assigned
  dsimp only
  rw [hleading]
  cases Assignment.ledger (leading items) with
  | error fault => exact hJ.refuseUsage (.inl rfl) _
  | ok l =>
    dsimp only
    simp only [length_leading_lt_iff]
    split
    · exact hJ.die _
    · exact hJ.pure l

theorem select (o : Outline) (key : Given Text) :
    J (Run.select o key) (required (chosen? o key)) := by
  unfold Run.select chosen?
  cases key with
  | no =>
    dsimp only
    cases o.position? 0 with
    | some p => exact hJ.pure p
    | none => exact hJ.refuse _
  | value key =>
    dsimp only
    cases (o.findIdx? key).bind o.position? with
    | some p => exact hJ.pure p
    | none => exact hJ.refuse _
  | blank => exact hJ.refuse _

theorem follow (level : Log.Level) (source : Text) (events : List Event)
    (fault : Option Numeral.Fault) :
    J (Run.follow level source events fault) (readable fault) := by
  refine hJ.after (hJ.log _ _) ?_
  cases fault with
  | some fault => exact hJ.die _
  | none => exact hJ.pure ()

theorem loadRule {level : Log.Level} {o : Outline} {p : Position} {f : Rule → Run α}
    {c : Except Finish α} (hf : J (f p.node.rule) c) :
    J (Run.loadRule level o p >>= f) (readable (overlongIn p.visited) >>= fun _ => c) := by
  have hintake := Rule.intake_ofHeader p
  have hfault : (Rule.ofHeader p).fault = overlongIn p.visited := hintake.fault
  have hfollow := hJ.follow level o.source (Rule.ofHeader p).events (Rule.ofHeader p).fault
  unfold Run.loadRule
  rw [← hfault]
  dsimp only
  rw [bind_assoc]
  refine hJ.bind hfollow fun _ hnone => ?_
  have hrule : (Rule.ofHeader p).rule = p.node.rule := hintake.rule (fault_of_readable hnone)
  rw [hrule]
  exact hJ.after (hJ.pure _) hf

/-- The rule below the chosen header is loaded after the lines below it have been looked at. -/
theorem loadChosen {level : Log.Level} {o : Outline} {key : Given Text} {f : Rule → Run α}
    {c : Except Finish α} (hf : ∀ p, chosen? o key = some p → J (f p.node.rule) c) :
    J (Run.select o key >>= fun p => Run.loadRule level o p >>= f)
      (required ((chosen? o key).map Position.visited) >>= fun ps =>
        readable (overlongIn ps) >>= fun _ => c) := by
  have hselect := hJ.select o key
  cases hp : chosen? o key with
  | none =>
    rw [hp] at hselect
    exact hJ.bind hselect (g := fun _ => .error .refused) fun _ h => nomatch h
  | some p =>
    rw [hp] at hselect
    exact hJ.after hselect (hJ.loadRule (hf p hp))

end Judgement

/-! ## Following a course -/

/-- From every output in lines, the step comes to what the course says, its output is in lines, and
an end for a mistake is shown there. -/
def Follows {α : Type} (r : Run α) (c : Except Finish α) : Prop :=
  ∀ o : Output, o.InLines → ∃ o' : Output, o'.InLines ∧
    r.run o = (c.mapError Finish.ending, o') ∧
    ∀ finish, c = .error finish → finish.ShownIn o'

theorem Run.run_bind {α β : Type} (r : Run α) (next : α → Run β) (o : Output) :
    (r >>= next).run o =
      match r.run o with
      | (.ok a, o') => (next a).run o'
      | (.error ending, o') => (.error ending, o') := by
  unfold ExceptT.run
  simp only [Bind.bind, ExceptT.bind, ExceptT.mk, StateT.bind, ExceptT.bindCont]
  cases r o with
  | mk result o' => cases result <;> rfl

namespace Follows

variable {α β : Type}

theorem pure (a : α) : Follows (pure a) (.ok a) :=
  fun o ho => ⟨o, ho, rfl, fun _ h => nomatch h⟩

theorem bind {r : Run α} {c : Except Finish α} {f : α → Run β} {g : α → Except Finish β}
    (hr : Follows r c) (hf : ∀ a, c = .ok a → Follows (f a) (g a)) :
    Follows (r >>= f) (c >>= g) := by
  intro o ho
  obtain ⟨o', ho', hrun, hshown⟩ := hr o ho
  cases c with
  | ok a =>
    obtain ⟨o'', ho'', hrun', hshown'⟩ := hf a rfl o' ho'
    refine ⟨o'', ho'', ?_, hshown'⟩
    rw [Run.run_bind, hrun]
    exact hrun'
  | error finish =>
    refine ⟨o', ho', ?_, fun finish' h => hshown finish' ?_⟩
    · rw [Run.run_bind, hrun]
      rfl
    · exact congrArg Except.error (Except.error.inj h)

theorem emit {change : Output → Output} (h : ∀ o, o.InLines → (change o).InLines) :
    Follows (modify change) (.ok ()) :=
  fun o ho => ⟨change o, h o ho, rfl, fun _ h => nomatch h⟩

theorem print {t : Text} (ht : Whole t) : Follows (Run.print t) (.ok ()) :=
  emit fun _ ho => ⟨ho.out.append ht, ho.err⟩

theorem printLine (t : Text) : Follows (Run.printLine t) (.ok ()) := print (whole_snoc t)

theorem log (level : Log.Level) (records : List Log.Record) :
    Follows (Run.log level records) (.ok ()) :=
  emit fun _ ho => ⟨ho.out, ho.err.append (whole_unlines _)⟩

theorem put (name text : Text) :
    Follows (modify fun o => { o with written := some (name, text) }) (.ok ()) :=
  emit fun _ ho => ⟨ho.out, ho.err⟩

theorem exit (code : Nat) : Follows (Run.exit code : Run α) (.error (.answer code)) :=
  fun o ho => ⟨o, ho, rfl, fun _ h => Except.error.inj h ▸ trivial⟩

theorem die (fault : Fault) : Follows (Run.die fault : Run α) (.error (.died fault)) :=
  fun o ho => ⟨o, ho, rfl, fun _ h => Except.error.inj h ▸ trivial⟩

theorem refuse (message : Text) : Follows (Run.refuse message : Run α) (.error .refused) := by
  intro o ho
  have hwhole := whole_snoc ("Error: ".toList ++ message)
  refine ⟨{ o with out := o.out ++ ("Error: ".toList ++ message ++ ['\n']) },
    ⟨ho.out.append hwhole, ho.err⟩, rfl, fun finish h => ?_⟩
  rw [← Except.error.inj h]
  exact ⟨o.out, message, ho.out, rfl⟩

theorem refuseUsage {program : Text} (h : IsProgram program) (message : Text) :
    Follows (Run.refuseUsage program message : Run α) (.error .misused) := by
  intro o ho
  have herr : o.err ++ program ++ ": error: ".toList ++ message ++ ['\n']
      = o.err ++ (program ++ ": error: ".toList ++ message ++ ['\n']) := by
    simp only [List.append_assoc]
  refine ⟨{ o with err := o.err ++ program ++ ": error: ".toList ++ message ++ ['\n'] },
    ⟨ho.out, whole_snoc _⟩, rfl, fun finish hfinish => ?_⟩
  rw [← Except.error.inj hfinish]
  exact ⟨o.err, program, message, ho.err, h, herr⟩

theorem judgement : Judgement Follows where
  pure := pure
  bind := bind
  log := log
  die := die
  refuse := refuse
  refuseUsage := refuseUsage

theorem after {r : Run α} {a : α} {f : α → Run β} {c : Except Finish β} (hr : Follows r (.ok a))
    (hf : Follows (f a) c) : Follows (r >>= f) c := judgement.after hr hf

theorem printEntries (es : List (Text × Int)) : Follows (Run.printEntries es) (written es) := by
  induction es with
  | nil => exact pure ()
  | cons e es ih =>
    obtain ⟨name, value⟩ := e
    unfold written entryFault? at ih ⊢
    rw [Run.printEntries, List.findSome?_cons]
    dsimp only
    cases hname : (Outline.Word.token name).fault? with
    | some fault =>
      rw [Outline.Word.write_of_fault? hname]
      exact judgement.failDraft fault
    | none =>
      have hwrite := Outline.Word.write_of_writable (Outline.Word.writable_of_fault? hname)
      rw [hwrite, Option.none_or]
      cases hvalue : (Outline.Word.integer value).fault? with
      | some fault =>
        rw [Outline.Word.write_of_fault? hvalue]
        exact judgement.failDraft fault
      | none =>
        rw [Outline.Word.write_of_writable (Outline.Word.writable_of_fault? hvalue)]
        exact (printLine _).after ih

/-! ### Commands -/

theorem check (w : World v) (s : Settings) (file : Text) :
    Follows (Run.check w s file) ((Action.check file).course w s) := by
  refine (judgement.readOutline w file).bind fun o _ => ?_
  dsimp only
  rw [Collection.fault_ofOutline]
  refine (judgement.follow _ _ _ _).bind fun _ _ => ?_
  refine (print (whole_unlines _)).after ?_
  show Follows _ (answered (if Check.fails _ _ _ then 1 else 0))
  cases Check.fails _ _ _ with
  | true => exact exit 1
  | false => exact pure ()

theorem test (w : World v) (s : Settings) (file : Text) (items : List (Option Text))
    (key : Given Text) (seed : Given Int) :
    Follows (Run.test w s file items key seed) ((Action.test file items key seed).course w s) := by
  refine (judgement.readItems items).bind fun l _ => ?_
  refine (judgement.readOutline w file).bind fun o _ => ?_
  refine judgement.loadChosen fun p hp => judgement.generator ?_
  show Follows _ (answered (if (chosen? o key).any _ then 0 else 2))
  rw [hp, Option.any_some]
  cases (p.node.rule.test .twister l _).1 with
  | true => exact printLine _
  | false => exact (printLine _).after (exit 2)

theorem apply (w : World v) (s : Settings) (file : Text) (items : List (Option Text))
    (key : Given Text) :
    Follows (Run.apply w s file items key) ((Action.apply file items key).course w s) := by
  refine (judgement.readItems items).bind fun l _ => ?_
  refine (judgement.readOutline w file).bind fun o _ => ?_
  refine judgement.loadChosen fun p hp => ?_
  -- Nothing is left of the courses of the steps that only other commands take.
  show Follows _ (written (((chosen? o key).map _).getD []) >>= Pure.pure)
  rw [bind_pure, hp]
  exact printEntries _

theorem format (w : World v) (s : Settings) (file : Text) (output : Given Text) :
    Follows (Run.format w s file output) ((Action.format file output).course w s) := by
  refine (judgement.readOutline w file).bind fun o ho => ?_
  refine (judgement.readPath output).bind fun path hpath => ?_
  have hpath : output.toOption = path := toOption_of_course hpath
  dsimp only
  rw [fault_formatting ho]
  refine (log _ _).after ?_
  show Follows _ (readable (overlongIn o.visited) >>= fun _ =>
    saved w.disk output.toOption >>= Pure.pure)
  rw [bind_pure, hpath]
  cases overlongIn o.visited with
  | some fault => exact judgement.failDraft _
  | none =>
    cases path with
    | none => exact print (whole_unlines _)
    | some path =>
      show Follows _ (saved w.disk (some path))
      unfold saved
      dsimp only [Option.map_none]
      cases w.disk.write (Disk.normalize path) with
      | error fault => exact die _
      | ok name =>
        refine (put name (Formatting.ofOutline o).draft.text).after ?_
        exact printLine _

theorem perform (w : World v) (s : Settings) (a : Action) :
    Follows (Run.perform w s a) (a.course w s) := by
  cases a with
  | check file => exact check w s file
  | test file items key seed => exact test w s file items key seed
  | apply file items key => exact apply w s file items key
  | format file output => exact format w s file output

theorem main (w : World v) (words : List Text) : Follows (Run.main w words) (course w words) := by
  unfold Run.main course
  cases hparse : parse words with
  | error stop =>
    cases stop with
    | help program => exact (print (whole_usage program)).after (exit 0)
    | usage program message => exact refuseUsage (speaksFor_parse words _ _ hparse) message
  | ok asked =>
    cases asked with
    | none => exact (print (whole_usage program)).after (exit 1)
    | some i =>
      refine (judgement.loadSettings w i).bind fun s _ => ?_
      exact (judgement.configure w s).after (perform _ s i.action)

end Follows

end Proviso.Command
