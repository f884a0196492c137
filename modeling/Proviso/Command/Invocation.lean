/-
  What the program can be asked to do.

  The words of a command line are two options that hold for every command, the name of a
  command, and the options and the file of that command.
-/
import Proviso.Command.Options
import Proviso.Numeral.Argument

namespace Proviso.Command

/-- A command with its options. -/
inductive Action where
  /-- Report the lines of a file that cannot be used. -/
  | check (file : Text)
  /-- Test a rule of a file against assigned values. -/
  | test (file : Text) (items : List (Option Text)) (key : Given Text) (seed : Given Int)
  /-- Apply a rule of a file to assigned values. -/
  | apply (file : Text) (items : List (Option Text)) (key : Given Text)
  /-- Write a file in canonical form. -/
  | format (file : Text) (output : Given Text)
  deriving DecidableEq, Repr

/-- A command, and what is said about settings. -/
structure Invocation where
  config : Given Text
  level : Given Text
  action : Action
  deriving DecidableEq, Repr

/-- The name of the program. -/
def program : Text := "conditionset".toList

/-- What the words in front of a command say, and the command with its words. -/
structure Global where
  config : Given Text
  level : Given Text
  command : Option (Text × List Text)

/-- What the words of a command say. -/
structure Local where
  file : Text
  items : List (Option Text)
  key : Given Text
  seed : Given Int
  output : Given Text

/-- The commands by name. -/
inductive Name where
  | check | test | apply | format
  deriving DecidableEq, Repr

namespace Name

/-- All commands. -/
def all : List Name := [.check, .test, .apply, .format]

/-- The spelling of a command. -/
def spelling : Name → Text
  | .check => "check".toList
  | .test => "test".toList
  | .apply => "apply".toList
  | .format => "format".toList

/-- The command with a spelling. -/
def ofSpelling? (t : Text) : Option Name := all.find? fun n => n.spelling == t

/-- The command with what its words say. -/
def action (n : Name) (l : Local) : Action :=
  match n with
  | .check => .check l.file
  | .test => .test l.file l.items l.key l.seed
  | .apply => .apply l.file l.items l.key
  | .format => .format l.file l.output

end Name

/-- The flags for help. -/
def helpFlag {σ : Type} : Flag σ := ⟨["-h".toList, "--help".toList], .help⟩

/-- A flag whose argument is stored as it is. -/
def textFlag {σ : Type} (name : Text) (set : Option Text → σ → σ) : Flag σ :=
  ⟨[name], .store fun argument value => .ok (set argument value)⟩

/-- What is understood in front of a command. -/
def globalGrammar : Grammar Global where
  program := program
  flags :=
    [helpFlag,
     textFlag "--config".toList fun a g => { g with config := .ofArgument a },
     textFlag "--log-level".toList fun a g => { g with level := .ofArgument a }]
  operand :=
    { name := "command".toList
      required := false
      takesAll := true
      set := fun first more g =>
        match Name.ofSpelling? first with
        | some _ => .ok { g with command := some (first, more) }
        | none =>
          .error ("invalid choice: ".toList ++ first.quoted ++ " (choose from ".toList
            ++ Text.join [',', ' '] (Name.all.map fun n => Text.quoted n.spelling) ++ [')']) }

/-- The flag for an assigned value, which may be given many times. -/
def setFlag : Flag Local :=
  textFlag "--set".toList fun a l => { l with items := l.items ++ [a] }

/-- The flag for the header of a rule. -/
def keyFlag : Flag Local := textFlag "--key".toList fun a l => { l with key := .ofArgument a }

/-- The flag for the seed of random numbers. -/
def seedFlag : Flag Local :=
  ⟨["--seed".toList], .store fun
    | none, l => .ok { l with seed := .blank }
    | some a, l =>
      match Numeral.argument? a with
      | some n => .ok { l with seed := .value n }
      | none => .error ("invalid int value: ".toList ++ a.quoted)⟩

/-- The flag for the file that is written. -/
def outputFlag : Flag Local :=
  textFlag "--output".toList fun a l => { l with output := .ofArgument a }

/-- What is understood behind a command. -/
def localGrammar (n : Name) : Grammar Local where
  program := program ++ [' '] ++ n.spelling
  flags :=
    match n with
    | .check => [helpFlag]
    | .test => [helpFlag, setFlag, keyFlag, seedFlag]
    | .apply => [helpFlag, setFlag, keyFlag]
    | .format => [helpFlag, outputFlag]
  operand :=
    { name := "file".toList
      required := true
      takesAll := false
      set := fun first _ l => .ok { l with file := first } }

/-- A mistake that is noticed when the whole command line has been read. -/
def refuse {α : Type} (message : Text) : Except Stop α := .error (.usage program message)

/-- Refuses words that are left over. -/
def refuseLeftOver (words : List Text) : Except Stop Unit :=
  if words.isEmpty then .ok ()
  else refuse ("unrecognized arguments: ".toList ++ Text.join [' '] words)

/-- What a command line asks for; nothing if it names no command. -/
def parse (words : List Text) : Except Stop (Option Invocation) := do
  let front ← globalGrammar.parse words ⟨.no, .no, none⟩
  let action ←
    match front.value.command with
    | none => pure none
    | some (name, rest) =>
      match Name.ofSpelling? name with
      | none => pure none
      | some n => do
        let back ← (localGrammar n).parse rest ⟨[], [], .no, .no, .no⟩
        refuseLeftOver (front.leftOver ++ back.leftOver)
        pure (some (n.action back.value))
  refuseLeftOver (if action.isSome then [] else front.leftOver)
  return action.map (⟨front.value.config, front.value.level, ·⟩)

end Proviso.Command
