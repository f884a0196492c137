/-
  Running the program.

  A run is a function of the command line, the files, the environment and the state of the
  shared random numbers. It ends with an exit code, or with a fault that nothing in the
  program answers; what has been printed and logged until then stays.
-/
import Proviso.Command.Assignment
import Proviso.Command.Check
import Proviso.Command.Invocation
import Proviso.Outline.File
import Proviso.Rule.Evaluation
import Proviso.Settings.Loading

namespace Proviso.Command

open Outline (Draft Position)

/-- What a run has brought forth so far. -/
structure Output where
  /-- What is printed. -/
  out : Text
  /-- What goes to the channel for errors: the log, and mistakes in the command line. -/
  err : Text
  /-- The name and the text of the file that is written. -/
  written : Option (Text × Text)

/-- A fault that ends a run without an exit code. -/
inductive Fault where
  | numeral (fault : Numeral.Fault)
  | encoding (fault : Utf8.Fault)
  | disk (path : Text) (fault : Disk.Fault)
  /-- An option for a path is given without one (`Given.blank`). -/
  | blankPath
  /-- The option for a seed is given without one (`Given.blank`). -/
  | blankSeed
  /-- The option for an assigned value is given without one (`Given.blank`). -/
  | blankItem
  deriving DecidableEq, Repr

/-- The wording of a fault. -/
def Fault.message : Fault → Text
  | .numeral fault => fault.message
  | .encoding fault => fault.message
  | .disk path fault => fault.message path
  | .blankPath => "expected str, bytes or os.PathLike object, not list".toList
  | .blankSeed =>
    "The only supported seed types are: None,\nint, float, str, bytes, and bytearray.".toList
  | .blankItem => "'list' object has no attribute 'rpartition'".toList

/-- How a run ends before its last step. -/
inductive Ending where
  | exit (code : Nat)
  | died (fault : Fault)
  deriving DecidableEq, Repr

/-- A step of a run: it adds to the output and may end the run. -/
abbrev Run := ExceptT Ending (StateM Output)

/-- What a run works with. -/
structure World (v : Settings.Validation) where
  disk : Disk
  /-- The raw values that the environment gives. -/
  environment : Settings.Layer v.Raw
  /-- The shared generator of random numbers. -/
  shared : Twister

namespace Run

variable {v : Settings.Validation}

/-- Prints a text. -/
def print (t : Text) : Run Unit := modify fun o => { o with out := o.out ++ t }

/-- Prints a line. -/
def printLine (t : Text) : Run Unit := print (t ++ ['\n'])

/-- Logs records as far as the level shows them. -/
def log (level : Log.Level) (records : List Log.Record) : Run Unit :=
  modify fun o => { o with err := o.err ++ Log.text level records }

/-- Ends the run with an exit code. -/
def exit {α : Type} (code : Nat) : Run α := throw (.exit code)

/-- Ends the run with a fault. -/
def die {α : Type} (fault : Fault) : Run α := throw (.died fault)

/-- Says what is wrong and ends the run. -/
def refuse {α : Type} (message : Text) : Run α := do
  printLine ("Error: ".toList ++ message)
  exit 1

/-- Ends the run for a mistake in the command line. The line that sums up the usage, which would
stand in front, is left out. -/
def refuseUsage {α : Type} (program message : Text) : Run α := do
  modify fun o => { o with err := o.err ++ program ++ ": error: ".toList ++ message ++ ['\n'] }
  exit 2

/-- A stand-in for the text that explains the command line of a program: its first words, and none
of what is said about the options. -/
def usage (program : Text) : Text :=
  "usage: ".toList ++ program ++ " [options] ...\n".toList

/-! ### Steps -/

/-- Ends the run for what cannot be written. -/
def failDraft {α : Type} : Draft.Fault → Run α
  | .numeral fault => die (.numeral fault)
  | fault => refuse fault.message

/-- Reads the outline of a file. -/
def readOutline (w : World v) (file : Text) : Run Outline :=
  match Outline.File.read w.disk file with
  | .ok o => return o
  | .error fault =>
    match fault.cause with
    | .disk .nullCharacter => die (.disk fault.path .nullCharacter)
    | _ => refuse fault.message

/-- The path that an option gives. -/
def readPath : Given Text → Run (Option Text)
  | .no => return none
  | .blank => die .blankPath
  | .value path => return some path

/-- Loads the settings. A level that is empty or blank counts as not given. -/
def loadSettings (w : World v) (config level : Given Text) : Run Settings := do
  let overrides : Settings.Layer v.Raw :=
    match level with
    | .value (c :: cs) => ⟨none, some (v.ofText (c :: cs)), none⟩
    | _ => .none
  match Settings.load v w.disk (← readPath config) w.environment overrides with
  | .ok s => return s
  | .error fault =>
    match fault with
    | .encoding fault => die (.encoding fault)
    | .numeral fault => die (.numeral fault)
    | .badPath path => die (.disk path .nullCharacter)
    | fault => refuse fault.message

/-- Puts the settings into force: the shared generator afterwards. A seed that is too long to be
logged is used without a record of it. -/
def configure (w : World v) (s : Settings) : Run Twister := do
  let (shared, record) := Settings.configure s w.shared
  match record with
  | .ok records => log s.level records
  | .error _ => pure ()
  return shared

/-- The ledger of assigned values: those in front of the first blank one, which ends the run if
there is any. -/
def readItems (items : List (Option Text)) : Run Ledger :=
  let given := (items.takeWhile Option.isSome).filterMap id
  match Assignment.ledger given with
  | .ok l => if given.length < items.length then die .blankItem else return l
  | .error fault => refuseUsage program fault.message

/-- The header of the rule to be used: the first one, or the one that `key` spells. No header is
spelled by a blank. -/
def select (o : Outline) (key : Given Text) : Run Position :=
  let unnamed (shown : Text) : Run Position :=
    refuse ("No condition set named ".toList ++ shown ++ " in ".toList ++ o.source)
  match key with
  | .no =>
    match o.position? 0 with
    | some p => return p
    | none => refuse ("No condition sets in ".toList ++ o.source)
  | .value key =>
    match (o.findIdx? key).bind o.position? with
    | some p => return p
    | none => unnamed key.quoted
  | .blank => unnamed ['[', ']']

/-- The generator for a test: one for the seed if it is given, and else the shared one. -/
def generator (w : World v) : Given Int → Run Twister
  | .no => return w.shared
  | .blank => die .blankSeed
  | .value seed => return .ofSeed seed

/-- Logs events and ends the run if they ended in a fault. -/
def follow (level : Log.Level) (source : Text) (events : List Event)
    (fault : Option Numeral.Fault) : Run Unit := do
  log level (events.map (·.record source))
  match fault with
  | some fault => die (.numeral fault)
  | none => return

/-- Loads the rule below a header. -/
def loadRule (level : Log.Level) (o : Outline) (p : Position) : Run Rule := do
  let loading := Rule.ofHeader p
  follow level o.source loading.events loading.fault
  return loading.rule

/-- Prints the entries of a ledger, one a line, up to one that cannot be written. -/
def printEntries : List (Text × Int) → Run Unit
  | [] => return
  | (name, value) :: rest =>
    match Outline.Word.write (.token name), Outline.Word.write (.integer value) with
    | .error fault, _ => failDraft fault
    | _, .error fault => failDraft fault
    | .ok name, .ok value => do
      printLine (name ++ [' '] ++ value)
      printEntries rest

/-! ### Commands -/

/-- Reports the lines of a file that cannot be used. -/
def check (w : World v) (s : Settings) (file : Text) : Run Unit := do
  let o ← readOutline w file
  let c := Collection.ofOutline o
  follow s.level o.source c.events c.fault
  let warnings := Check.warnings o.nodes c.rules
  print (Text.unlines (Check.lines s.strict c.rules.length c.reports warnings))
  if Check.fails s.strict c.reports.length warnings.length then exit 1

/-- Tests a rule of a file. -/
def test (w : World v) (s : Settings) (file : Text) (items : List (Option Text))
    (key : Given Text) (seed : Given Int) : Run Unit := do
  let ledger ← readItems items
  let o ← readOutline w file
  let rule ← loadRule s.level o (← select o key)
  if (rule.test .twister ledger (← generator w seed)).1 then printLine "true".toList
  else do
    printLine "false".toList
    exit 2

/-- Applies a rule of a file and prints the values. -/
def apply (w : World v) (s : Settings) (file : Text) (items : List (Option Text))
    (key : Given Text) : Run Unit := do
  let ledger ← readItems items
  let o ← readOutline w file
  let rule ← loadRule s.level o (← select o key)
  printEntries (rule.apply ledger).entries

/-- Writes a file in canonical form. -/
def format (w : World v) (s : Settings) (file : Text) (output : Given Text) : Run Unit := do
  let o ← readOutline w file
  let output ← readPath output
  let f := Formatting.ofOutline o
  log s.level (f.events.map (·.record o.source))
  match f.fault with
  | some fault => failDraft fault
  | none =>
    match output with
    | none => print f.draft.text
    | some output => do
      let path := Disk.normalize output
      match w.disk.write path with
      | .error fault => die (.disk path fault)
      | .ok name => do
        modify fun o => { o with written := some (name, f.draft.text) }
        printLine ("Wrote ".toList ++ output)

/-- Carries out a command. -/
def perform (w : World v) (s : Settings) : Action → Run Unit
  | .check file => check w s file
  | .test file items key seed => test w s file items key seed
  | .apply file items key => apply w s file items key
  | .format file output => format w s file output

/-- Carries out a command line. -/
def main (w : World v) (words : List Text) : Run Unit :=
  match parse words with
  | .error (.help program) => do
    print (usage program)
    exit 0
  | .error (.usage program message) => refuseUsage program message
  | .ok none => do
    print (usage program)
    exit 1
  | .ok (some i) => do
    let s ← loadSettings w i.config i.level
    perform { w with shared := ← configure w s } s i.action

end Run

/-- The end of a run and its output. -/
structure Outcome where
  /-- The exit code, or the fault in its place. -/
  ending : Except Fault Nat
  output : Output

/-- The outcome of a command line. A run that comes to its last step ends with the exit code 0. -/
def run {v : Settings.Validation} (w : World v) (words : List Text) : Outcome :=
  match (Run.main w words).run ⟨[], [], none⟩ with
  | (.ok (), o) => ⟨.ok 0, o⟩
  | (.error (.exit code), o) => ⟨.ok code, o⟩
  | (.error (.died fault), o) => ⟨.error fault, o⟩

end Proviso.Command
