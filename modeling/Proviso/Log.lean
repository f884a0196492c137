/-
  The log.

  A record has a level, a topic and a message. A log shows the records at its own level and
  above.
-/
import Proviso.Rule.Loader

namespace Proviso

namespace Log

/-- How serious a record is, from the least to the most. -/
inductive Level where
  | debug | info | warning | error | critical
  deriving DecidableEq, Repr

namespace Level

/-- The place of a level in the order of seriousness. -/
def rank : Level → Nat
  | .debug => 0
  | .info => 1
  | .warning => 2
  | .error => 3
  | .critical => 4

/-- The name of a level. -/
def name : Level → Text
  | .debug => "DEBUG".toList
  | .info => "INFO".toList
  | .warning => "WARNING".toList
  | .error => "ERROR".toList
  | .critical => "CRITICAL".toList

/-- All levels, the most serious first. -/
def all : List Level := [.critical, .error, .warning, .info, .debug]

/-- The level with a name. -/
def ofName? (t : Text) : Option Level := all.find? fun l => l.name == t

end Level

/-- What a record is about. -/
inductive Topic where
  | rules | outline | settings
  deriving DecidableEq, Repr

/-- The name of a topic. -/
def Topic.name : Topic → Text
  | .rules => "conditionset.condition_set".toList
  | .outline => "conditionset.datafile.reader".toList
  | .settings => "conditionset.config".toList

/-- One entry of the log. -/
structure Record where
  level : Level
  topic : Topic
  message : Text
  deriving DecidableEq, Repr

namespace Record

/-- Whether a log at a level shows the record. -/
def shownAt (level : Level) (r : Record) : Bool := level.rank ≤ r.level.rank

/-- The line that shows a record. -/
def line (r : Record) : Text :=
  r.level.name ++ [' '] ++ r.topic.name ++ ": ".toList ++ r.message

end Record

/-- The text of a log at a level. -/
def text (level : Level) (records : List Record) : Text :=
  Text.unlines ((records.filter (·.shownAt level)).map Record.line)

end Log

/-- The record of a report about a line from `source`. -/
def Outline.Report.record (source : Text) (r : Outline.Report) : Log.Record :=
  ⟨.warning, .outline, r.logText source⟩

/-- The record of an event while rules from `source` are loaded. -/
def Event.record (source : Text) : Event → Log.Record
  | .reported r => r.record source
  | .loaded mode clauses groups =>
    ⟨.debug, .rules,
      "Loaded ".toList ++ mode.word ++ " set: ".toList ++ Text.ofNat clauses
        ++ " expression(s), ".toList ++ Text.ofNat groups ++ " nested set(s)".toList⟩

end Proviso
