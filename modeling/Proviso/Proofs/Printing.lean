/-
  What a run prints.

  `Prints` says of a step of a run that, whatever has been printed before, it prints a certain text
  more and comes to a certain result. Steps one after another print their texts one after another
  (`Prints.andThen`). The steps that get things ready are `Quiet`: they print nothing, or what is
  wrong. A step is `Steady` if it prints the same from every output. So a run prints what its
  command prints (`run_of_prints`).
-/
import Proviso.Proofs.Endings

namespace Proviso.Command

variable {v : Settings.Validation}

/-- The step prints the text behind what has been printed, and comes to the result. -/
def Prints {α : Type} (r : Run α) (t : Text) (result : Except Ending α) : Prop :=
  ∀ o : Output, ∃ o' : Output, r.run o = (result, o') ∧ o'.out = o.out ++ t

namespace Prints

variable {α β : Type}

theorem pure (a : α) : Prints (pure a : Run α) [] (.ok a) :=
  fun o => ⟨o, rfl, (List.append_nil _).symm⟩

theorem andThen {r : Run α} {t u : Text} {a : α} {next : α → Run β} {result : Except Ending β}
    (hr : Prints r t (.ok a)) (hnext : Prints (next a) u result) :
    Prints (r >>= next) (t ++ u) result := by
  intro o
  obtain ⟨o', hrun, hout⟩ := hr o
  obtain ⟨o'', hrun', hout'⟩ := hnext o'
  refine ⟨o'', ?_, ?_⟩
  · rw [Run.run_bind, hrun]
    exact hrun'
  · rw [hout', hout, List.append_assoc]

/-- A step that prints nothing changes nothing in what the next one prints. -/
theorem after {r : Run α} {t : Text} {a : α} {next : α → Run β} {result : Except Ending β}
    (hr : Prints r [] (.ok a)) (hnext : Prints (next a) t result) :
    Prints (r >>= next) t result :=
  hr.andThen hnext

theorem ended {r : Run α} {t : Text} {ending : Ending} (next : α → Run β)
    (hr : Prints r t (.error ending)) : Prints (r >>= next) t (.error ending) := by
  intro o
  obtain ⟨o', hrun, hout⟩ := hr o
  refine ⟨o', ?_, hout⟩
  rw [Run.run_bind, hrun]

theorem print (t : Text) : Prints (Run.print t) t (.ok ()) := fun _ => ⟨_, rfl, rfl⟩

theorem log (level : Log.Level) (records : List Log.Record) :
    Prints (Run.log level records) [] (.ok ()) :=
  fun o => ⟨_, rfl, (List.append_nil o.out).symm⟩

theorem printLine (t : Text) : Prints (Run.printLine t) (t ++ ['\n']) (.ok ()) := print _

theorem exit (code : Nat) : Prints (Run.exit code : Run α) [] (.error (.exit code)) :=
  fun o => ⟨o, rfl, (List.append_nil _).symm⟩

theorem die (fault : Fault) : Prints (Run.die fault : Run α) [] (.error (.died fault)) :=
  fun o => ⟨o, rfl, (List.append_nil _).symm⟩

theorem refuse (message : Text) :
    Prints (Run.refuse message : Run α) ("Error: ".toList ++ message ++ ['\n'])
      (.error (.exit 1)) := by
  rw [← List.append_nil (_ ++ _)]
  exact (printLine _).andThen (exit 1)

theorem refuseUsage (program message : Text) :
    Prints (Run.refuseUsage program message : Run α) [] (.error (.exit 2)) :=
  fun o => ⟨_, rfl, (List.append_nil o.out).symm⟩

end Prints

/-! ## Steps that get things ready -/

/-- What a step that gives no answer has printed when it has come to its course: one message if
something is wrong with what the run is given, and nothing otherwise. -/
def Said {α : Type} (t : Text) : Except Finish α → Prop
  | .ok _ => t = []
  | .error (.answer _) => False
  | .error .refused => ∃ message, t = "Error: ".toList ++ message ++ ['\n']
  | .error _ => t = []

/-- The step comes to what its course says and prints nothing, apart from what is wrong. -/
def Quiet {α : Type} (r : Run α) (c : Except Finish α) : Prop :=
  ∃ t, Said t c ∧ Prints r t (c.mapError Finish.ending)

namespace Quiet

variable {α β : Type}

theorem prints {r : Run α} {a : α} (h : Quiet r (.ok a)) : Prints r [] (.ok a) := by
  obtain ⟨t, rfl, hprints⟩ := h
  exact hprints

theorem bind {r : Run α} {c : Except Finish α} {f : α → Run β} {g : α → Except Finish β}
    (hr : Quiet r c) (hf : ∀ a, c = .ok a → Quiet (f a) (g a)) : Quiet (r >>= f) (c >>= g) := by
  cases c with
  | ok a =>
    obtain ⟨t, hsaid, hprints⟩ := hf a rfl
    exact ⟨t, hsaid, hr.prints.after hprints⟩
  | error finish =>
    obtain ⟨t, hsaid, hprints⟩ := hr
    refine ⟨t, ?_, hprints.ended f⟩
    cases finish <;> exact hsaid

theorem judgement : Judgement Quiet where
  pure a := ⟨[], rfl, .pure a⟩
  bind := bind
  log level records := ⟨[], rfl, .log level records⟩
  die fault := ⟨[], rfl, .die fault⟩
  refuse message := ⟨_, ⟨message, rfl⟩, .refuse message⟩
  refuseUsage _ message := ⟨[], rfl, .refuseUsage _ message⟩

end Quiet

/-! ## Steps that print by themselves -/

/-- What the step prints and comes to does not depend on the output before it. -/
def Steady {α : Type} (r : Run α) : Prop := ∃ t result, Prints r t result

namespace Steady

variable {α β : Type}

theorem pure (a : α) : Steady (Pure.pure a : Run α) := ⟨_, _, .pure a⟩

theorem bind {r : Run α} {next : α → Run β} (hr : Steady r) (hnext : ∀ a, Steady (next a)) :
    Steady (r >>= next) := by
  obtain ⟨t, result, hprints⟩ := hr
  cases result with
  | ok a =>
    obtain ⟨u, result, hprints'⟩ := hnext a
    exact ⟨_, _, hprints.andThen hprints'⟩
  | error ending => exact ⟨_, _, hprints.ended next⟩

end Steady

theorem Quiet.steady {α : Type} {r : Run α} {c : Except Finish α} (h : Quiet r c) : Steady r := by
  obtain ⟨t, -, hprints⟩ := h
  exact ⟨t, _, hprints⟩

namespace Prints

variable {α β : Type}

theorem readOutline {w : World v} {file : Text} {o : Outline}
    (h : Outline.File.read w.disk file = .ok o) : Prints (Run.readOutline w file) [] (.ok o) := by
  have hopened : opened w.disk file = .ok o := congrArg (Except.mapError _) h
  have hquiet := Quiet.judgement.readOutline w file
  rw [hopened] at hquiet
  exact hquiet.prints

theorem loadSettings {w : World v} {i : Invocation} {s : Settings} (h : i.Settles w s) :
    Prints (Run.loadSettings w i.config i.level) [] (.ok s) := by
  have hquiet := Quiet.judgement.loadSettings w i
  rw [h.settings_eq] at hquiet
  exact hquiet.prints

theorem rejectSettings {w : World v} {i : Invocation} {rs : List Settings.Rejection}
    (hconfig : i.config ≠ .blank)
    (hload : Settings.load v w.disk i.config.toOption w.environment (i.overrides v)
      = .error (.invalid rs)) :
    Prints (Run.loadSettings w i.config i.level)
      ("Error: ".toList ++ (Settings.Fault.invalid rs).message ++ ['\n']) (.error (.exit 1)) := by
  have hpath : Prints (Run.readPath i.config) [] (.ok i.config.toOption) := by
    have hquiet := Quiet.judgement.readPath i.config
    rw [Given.course_of_ne_blank hconfig] at hquiet
    exact hquiet.prints
  unfold Run.loadSettings
  refine hpath.after ?_
  -- The layer of the caller that the step builds on the spot is `i.overrides v`.
  split
  · next s hs => exact nomatch hload.symm.trans hs
  · next fault hfault =>
    obtain rfl : Settings.Fault.invalid rs = fault := Except.error.inj (hload.symm.trans hfault)
    exact .refuse _

/-- A run prints what its command prints when the settings are in force. -/
theorem main {w : World v} {words : List Text} {i : Invocation} {s : Settings} {t : Text}
    {result : Except Ending Unit} (hparse : parse words = .ok (some i)) (hsettings : i.Settles w s)
    (h : Prints (Run.perform { w with shared := (s.configure w.shared).1 } s i.action) t result) :
    Prints (Run.main w words) t result := by
  unfold Run.main
  rw [hparse]
  exact (loadSettings hsettings).after ((Quiet.judgement.configure w s).prints.after h)

end Prints

/-- The exit code of a run whose last step has come to a result, or the fault in its place. -/
def endingOf : Except Ending Unit → Except Fault Nat
  | .ok () => .ok 0
  | .error (.exit code) => .ok code
  | .error (.died fault) => .error fault

/-- What is printed is all that is printed, and the result decides how the run ends. -/
theorem run_of_prints {w : World v} {words : List Text} {t : Text} {result : Except Ending Unit}
    (h : Prints (Run.main w words) t result) :
    (run w words).output.out = t ∧ (run w words).ending = endingOf result := by
  obtain ⟨o, hrun, hout⟩ := h ⟨[], [], none⟩
  unfold run
  rw [hrun]
  match result with
  | .ok () => exact ⟨hout, rfl⟩
  | .error (.exit code) => exact ⟨hout, rfl⟩
  | .error (.died fault) => exact ⟨hout, rfl⟩

end Proviso.Command
