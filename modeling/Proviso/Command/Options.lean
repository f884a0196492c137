/-
  Options and operands of a command line.

  A grammar lists the flags of a program and the one operand it takes. A flag is recognized
  by its name, by any beginning of a long name that fits no other, and with its argument
  behind an equals sign or as the next word. Words that are not taken up by a flag or the
  operand are left over; `--` ends the flags. Attached to a flag, as in `--key=--`, it stands
  for no argument: so release 3.11.0 of the option parser has it, which is followed here, while
  release 3.11.10 takes it for the argument.
-/
import Proviso.Text.Digit
import Proviso.Text.Quoted

namespace Proviso.Command

/-- Why a command line is not carried out. -/
inductive Stop where
  /-- Help is asked for. -/
  | help (program : Text)
  /-- The words do not fit the grammar of a program. -/
  | usage (program message : Text)
  deriving DecidableEq, Repr

/-- What a command line says about an option. -/
inductive Given (α : Type) where
  /-- The option is not given. -/
  | no
  /-- The option is given without an argument, as `--` attached to it says in release 3.11.0 of the
  option parser. In release 3.11.10 no option is given so. -/
  | blank
  | value (a : α)
  deriving DecidableEq, Repr

/-- What is said by an option that is given. -/
def Given.ofArgument {α : Type} : Option α → Given α
  | none => .blank
  | some a => .value a

/-- What a flag does to the values collected so far. -/
inductive Effect (σ : Type) where
  /-- It asks for help and takes no argument. -/
  | help
  /-- It takes an argument, which it may refuse with a message. -/
  | store (set : Option Text → σ → Except Text σ)

/-- A flag with its names. -/
structure Flag (σ : Type) where
  names : List Text
  effect : Effect σ

/-- The operand of a program. -/
structure Operand (σ : Type) where
  name : Text
  required : Bool
  /-- Whether the operand is one word, or one word and all that follows. -/
  takesAll : Bool
  set : Text → List Text → σ → Except Text σ

/-- What a program understands. -/
structure Grammar (σ : Type) where
  program : Text
  flags : List (Flag σ)
  operand : Operand σ

/-- What a word of the command line is. -/
inductive Mark (σ : Type) where
  | plain
  /-- The word that ends the flags. -/
  | dashes
  /-- A flag by its full name, and what is attached to it in the same word. -/
  | flag (flag : Flag σ) (name : Text) (attached : Option Text)
  /-- A word that looks like a flag but is none. -/
  | unknown

/-- Whether the word looks like a flag. -/
def Mark.isFlag {σ : Type} : Mark σ → Bool
  | .plain => false
  | .dashes => false
  | .flag .. => true
  | .unknown => true

/-- A word and what it is. -/
abbrev Word (σ : Type) := Text × Mark σ

variable {σ : Type}

namespace Grammar

/-- All names of flags with their flags. -/
def named (g : Grammar σ) : List (Text × Flag σ) :=
  g.flags.flatMap fun f => f.names.map (·, f)

/-- The flag with a name. -/
def flag? (g : Grammar σ) (name : Text) : Option (Flag σ) :=
  (g.named.find? fun n => n.1 == name).map (·.2)

/-- The end that a wrong command line comes to. -/
def refuse {α : Type} (g : Grammar σ) (message : Text) : Except Stop α :=
  .error (.usage g.program message)

/-! ### Telling words apart -/

/-- A word that looks like a negative number, which is never taken for a flag. -/
def isNegativeNumber (word : Text) : Bool :=
  match if word.getLast? = some '\n' then word.dropLast else word with
  | '-' :: rest =>
    match Text.cut '.' rest with
    | (whole, none) => !whole.isEmpty && whole.all Text.isDigit
    | (whole, some decimals) =>
      whole.all Text.isDigit && !decimals.isEmpty && decimals.all Text.isDigit
  | _ => false

/-- The readings of a word as the shortened name of a flag or as a short flag with an argument
behind it. -/
def readings (g : Grammar σ) (word : Text) : List (Text × Mark σ) :=
  if Text.beginsWith ['-', '-'] word then
    let (start, argument) := Text.cut '=' word
    (g.named.filter fun n => Text.beginsWith start n.1).map fun (name, f) =>
      (name, .flag f name argument)
  else
    g.named.filterMap fun (name, f) =>
      if name = word.take 2 then some (name, .flag f name (some (word.drop 2)))
      else if Text.beginsWith word name then some (name, .flag f name none)
      else none

/-- What a word in front of `--` is. -/
def markWord (g : Grammar σ) (word : Text) : Except Stop (Mark σ) :=
  if word.head? ≠ some '-' then .ok .plain
  else
    match g.flag? word with
    | some f => .ok (.flag f word none)
    | none =>
      if word.length = 1 then .ok .plain
      else
        let (name, argument) := Text.cut '=' word
        match argument, g.flag? name with
        | some argument, some f => .ok (.flag f name (some argument))
        | _, _ =>
          match g.readings word with
          | [(_, mark)] => .ok mark
          | [] =>
            .ok (if isNegativeNumber word || ' ' ∈ word then .plain else .unknown)
          | several =>
            g.refuse ("ambiguous option: ".toList ++ word ++ " could match ".toList
              ++ Text.join [',', ' '] (several.map (·.1)))

/-- What the words are: behind `--` all of them are plain. -/
def markWords (g : Grammar σ) : List Text → Except Stop (List (Word σ))
  | [] => .ok []
  | word :: rest =>
    if word = ['-', '-'] then .ok ((word, .dashes) :: rest.map (·, .plain))
    else
      match g.markWord word with
      | .error stop => .error stop
      | .ok mark => (g.markWords rest).map ((word, mark) :: ·)

/-! ### Taking up words -/

/-- A mistake in the use of a flag. -/
def refuseFlag {α : Type} (g : Grammar σ) (f : Flag σ) (message : Text) : Except Stop α :=
  g.refuse ("argument ".toList ++ Text.join ['/'] f.names ++ ": ".toList ++ message)

/-- The end that a request for help with something attached to it comes to. The characters that
are attached to a short flag are taken for further short flags; whatever is none is refused. -/
def helpWith {α : Type} (g : Grammar σ) (f : Flag σ) (short : Bool) (attached : Text) :
    Except Stop α :=
  let refused := g.refuseFlag f ("ignored explicit argument ".toList ++ attached.quoted)
  match attached with
  | [] => refused
  | c :: cs =>
    if !short || (g.flag? ['-', c]).isNone then refused
    else if cs.isEmpty then .error (.help g.program)
    else g.helpWith f short cs

/-- Takes up a flag, and the word behind it if the flag needs that word: the values afterwards
and the words that remain. That `--` attached to the flag is no argument is what release 3.11.0
does; release 3.11.10 hands `--` to the flag as its argument. -/
def takeFlag (g : Grammar σ) (f : Flag σ) (name : Text) (attached : Option Text)
    (rest : List (Word σ)) (value : σ) : Except Stop (σ × List (Word σ)) :=
  match f.effect, attached with
  | .help, none => .error (.help g.program)
  | .help, some a => g.helpWith f (!Text.beginsWith ['-', '-'] name) a
  | .store set, some a =>
    match set (if a = ['-', '-'] then none else some a) value with
    | .ok value => .ok (value, rest)
    | .error message => g.refuseFlag f message
  | .store set, none =>
    match rest with
    | (argument, .plain) :: rest =>
      match set (some argument) value with
      | .ok value => .ok (value, rest)
      | .error message => g.refuseFlag f message
    | _ => g.refuseFlag f "expected one argument".toList

/-- Words without a `--` in front. -/
def dropDashes : List (Word σ) → List (Word σ)
  | (_, .dashes) :: rest => rest
  | words => words

/-- Takes up the operand, if a word for it comes next: the values afterwards and the words that
remain. An operand that takes everything takes a `--` in front as well. -/
def takeOperand (g : Grammar σ) (words : List (Word σ)) (value : σ) :
    Except Stop (Option (σ × List (Word σ))) :=
  let stored (first : Text) (more : List Text) (rest : List (Word σ)) :=
    match g.operand.set first more value with
    | .ok value => .ok (some (value, rest))
    | .error message =>
      g.refuse ("argument ".toList ++ g.operand.name ++ ": ".toList ++ message)
  match dropDashes words with
  | (word, .plain) :: rest =>
    if g.operand.takesAll then
      match words.map (·.1) with
      | first :: more => stored first more []
      | [] => .ok none
    else stored word [] (dropDashes rest)
  | _ => .ok none

/-- The values collected from a command line, and the words left over. -/
structure Result (σ : Type) where
  value : σ
  leftOver : List Text

/-- Takes up words, given whether the operand is still to come. -/
def takeWords (g : Grammar σ) : Nat → List (Word σ) → Bool → σ → List Text →
    Except Stop (Result σ)
  | 0, words, _, value, leftOver => .ok ⟨value, leftOver ++ words.map (·.1)⟩
  | fuel + 1, words, open_, value, leftOver =>
    let plain := words.takeWhile fun w => !w.2.isFlag
    let operand :=
      if open_ && (!plain.isEmpty || words.isEmpty) then g.takeOperand words value
      else .ok none
    match operand with
    | .error stop => .error stop
    | .ok (some (value, rest)) => g.takeWords fuel rest false value leftOver
    | .ok none =>
      let leftOver := leftOver ++ plain.map (·.1)
      match words.drop plain.length with
      | [] =>
        if open_ && g.operand.required then
          g.refuse ("the following arguments are required: ".toList ++ g.operand.name)
        else .ok ⟨value, leftOver⟩
      | (_, .flag f name attached) :: rest =>
        match g.takeFlag f name attached rest value with
        | .error stop => .error stop
        | .ok (value, rest) => g.takeWords fuel rest open_ value leftOver
      | (word, _) :: rest => g.takeWords fuel rest open_ value (leftOver ++ [word])

/-- What a command line says, starting from given values. -/
def parse (g : Grammar σ) (words : List Text) (value : σ) : Except Stop (Result σ) :=
  match g.markWords words with
  | .error stop => .error stop
  | .ok marked => g.takeWords (marked.length + 1) marked true value []

end Grammar

end Proviso.Command
