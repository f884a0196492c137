/-
  Where settings come from.

  A layer gives raw values for some of the settings. Three layers lie over one another: the
  table of a file, the environment, and what the caller says. For each setting the topmost
  raw value counts, and only the values that count are looked at. The validation that looks at
  them is a parameter; that it looks at each setting on its own, and at nothing but the
  settings, is built in.
-/
import Proviso.Disk
import Proviso.Random.Source
import Proviso.Settings.Basic
import Proviso.Text.Utf8
import Proviso.Toml.Document

namespace Proviso.Settings

/-- Raw values for some of the settings. -/
structure Layer (Raw : Type) where
  seed : Option Raw
  level : Option Raw
  strict : Option Raw

namespace Layer

/-- The layer that gives nothing. -/
def none {Raw : Type} : Layer Raw := ⟨.none, .none, .none⟩

/-- One layer over another: what the upper one does not give comes from the lower one. -/
def orElse {Raw : Type} (upper lower : Layer Raw) : Layer Raw :=
  ⟨upper.seed <|> lower.seed, upper.level <|> lower.level, upper.strict <|> lower.strict⟩

/-- The layer that gives what keys are found to have; other keys are ignored. -/
def ofLookup {Raw : Type} (find? : Text → Option Raw) : Layer Raw :=
  ⟨find? Field.seed.key, find? Field.level.key, find? Field.strict.key⟩

/-- The layer of a table. -/
def ofTable (v : Validation) (t : Toml.Table) : Layer v.Raw :=
  ofLookup fun key => (t.find? key).map v.ofValue

/-- The environment variable for the seed. -/
def seedVariable : Text := "CONDITIONSET_SEED".toList

/-- The environment variable for the level of the log. -/
def levelVariable : Text := "CONDITIONSET_LOG_LEVEL".toList

/-- The layer of an environment, in which two of the settings can be given. -/
def ofEnvironment (v : Validation) (find? : Text → Option Text) : Layer v.Raw :=
  ⟨(find? seedVariable).map v.ofText, (find? levelVariable).map v.ofText, .none⟩

end Layer

/-- A setting with the reason why its raw value is rejected. -/
structure Rejection where
  field : Field
  reason : Reason
  deriving DecidableEq, Repr

/-- The value of a setting: its default if no raw value is given, or what the raw value gives. -/
def choose {Raw α : Type} (default : α) (accept : Raw → Except Reason α) :
    Option Raw → Except Reason α
  | none => .ok default
  | some raw => accept raw

/-- The rejection that a choice ends in, if it does. -/
def rejection {α : Type} (field : Field) : Except Reason α → List Rejection
  | .ok _ => []
  | .error reason => [⟨field, reason⟩]

/-- The settings of a layer, or everything that is wrong with it. -/
def ofLayer (v : Validation) (l : Layer v.Raw) : Except (List Rejection) Settings :=
  let seed := choose default.seed (seedOf v) l.seed
  let level := choose default.level (levelOf v) l.level
  let strict := choose default.strict (strictOf v) l.strict
  match seed, level, strict with
  | .ok seed, .ok level, .ok strict => .ok ⟨seed, level, strict⟩
  | _, _, _ =>
    .error (rejection .seed seed ++ rejection .level level ++ rejection .strict strict)

/-- Why there are no settings. -/
inductive Fault where
  /-- There is no file at the path. -/
  | missing (path : Text)
  /-- The file at the path cannot be read, or is no document. -/
  | unreadable (path : Text)
  /-- The section for the settings is not a table. -/
  | notTable (path : Text)
  /-- Raw values that count are rejected. -/
  | invalid (rejections : List Rejection)
  /-- The file is not text. -/
  | encoding (fault : Utf8.Fault)
  /-- The file contains a number that is too long. -/
  | numeral (fault : Numeral.Fault)
  /-- The path can be the path of no file. -/
  | badPath (path : Text)
  deriving DecidableEq, Repr

/-- The wording of a fault. Cut short are the fault of an unreadable file, which would say what the
file system or the reader of documents says, and the raw values that are rejected, which would be
listed with their reasons. -/
def Fault.message : Fault → Text
  | .missing path => "Config file not found: ".toList ++ path
  | .unreadable path => "Cannot read config file ".toList ++ path
  | .notTable path => path ++ ": [conditionset] must be a table".toList
  | .invalid rejections =>
    "Invalid configuration: ".toList ++ Text.ofNat rejections.length
      ++ (if rejections.length = 1 then " validation error".toList
          else " validation errors".toList)
      ++ " for EngineConfig".toList
  | .encoding fault => fault.message
  | .numeral fault => fault.message
  | .badPath path => Disk.Fault.message path .nullCharacter

/-- The key of the section for the settings. -/
def sectionKey : Text := "conditionset".toList

/-- The table for the settings in a document. -/
def tableOfDocument (path : Text) (document : Toml.Table) : Except Fault Toml.Table :=
  match document.find? sectionKey with
  | none => .ok []
  | some (.table t) => .ok t
  | some _ => .error (.notTable path)

/-- The table for the settings in the bytes of a file. -/
def tableOfBytes (path : Text) (bytes : List UInt8) : Except Fault Toml.Table :=
  match Utf8.decode bytes with
  | .error fault => .error (.encoding fault)
  | .ok t =>
    match Toml.Document.parse t with
    | .error .malformed => .error (.unreadable path)
    | .error (.numeral fault) => .error (.numeral fault)
    | .ok document => tableOfDocument path document

/-- The table for the settings in a file. -/
def tableOfFile (disk : Disk) (path : Text) : Except Fault Toml.Table :=
  let path := Disk.normalize path
  match disk.read path with
  | .ok bytes => tableOfBytes path bytes
  | .error .notFound => .error (.missing path)
  | .error .nullCharacter => .error (.badPath path)
  | .error _ => .error (.unreadable path)

/-- The settings from a file, if there is one, the environment and the caller. -/
def load (v : Validation) (disk : Disk) (path : Option Text)
    (environment overrides : Layer v.Raw) : Except Fault Settings := do
  let table ←
    match path with
    | none => .ok []
    | some path => tableOfFile disk path
  (ofLayer v (overrides.orElse (environment.orElse (.ofTable v table)))).mapError .invalid

/-- What is logged about a seed that is used. Only a log that shows it needs its text. -/
def seedRecords (level : Log.Level) (seed : Int) : Except Numeral.Fault (List Log.Record) :=
  if level = .debug then
    (Numeral.write seed).map fun t =>
      [⟨.debug, .settings, "Seeded random source with ".toList ++ t⟩]
  else .ok []

/-- The shared generator after the settings have been put into force, and what is logged: a seed,
if there is one, is used. -/
def configure (s : Settings) (shared : Twister) :
    Twister × Except Numeral.Fault (List Log.Record) :=
  match s.seed with
  | none => (shared, .ok [])
  | some seed => (.ofSeed seed, seedRecords s.level seed)

end Proviso.Settings
