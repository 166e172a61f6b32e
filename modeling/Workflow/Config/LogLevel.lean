import Workflow.Text.Case

/-! Levels of log messages: what is less than the level of a log is not written to it. -/

namespace Workflow

/-- A level; `unset` leaves the choice to the surroundings, who write warnings and what is worse. -/
inductive LogLevel where
  | unset
  | debug
  | info
  | warning
  | error
  | critical
  deriving DecidableEq, Inhabited

namespace LogLevel

def name : LogLevel → String
  | .unset => "NOTSET"
  | .debug => "DEBUG"
  | .info => "INFO"
  | .warning => "WARNING"
  | .error => "ERROR"
  | .critical => "CRITICAL"

/-- The levels that settings may name. -/
def settable : List LogLevel := [.debug, .info, .warning, .error, .critical]

/-- All names of levels, short ones included. -/
def names : List (String × LogLevel) :=
  [("NOTSET", .unset), ("DEBUG", .debug), ("INFO", .info), ("WARNING", .warning), ("WARN", .warning),
    ("ERROR", .error), ("CRITICAL", .critical), ("FATAL", .critical)]

/-- The level of a name in any case; `info` for any other text. -/
def ofName (name : String) : LogLevel := (names.lookup (Text.upper name)).getD .info

/-- The place of a level in their order. -/
def rank : LogLevel → Nat
  | .unset => 3
  | .debug => 1
  | .info => 2
  | .warning => 3
  | .error => 4
  | .critical => 5

/-- A log of this level takes a message of the given one. -/
def takes (log message : LogLevel) : Bool := log.rank ≤ message.rank

/-- A written message, but for its time. -/
def line (logger : String) (level : LogLevel) (message : String) : String :=
  s!"{logger} - {level.name} - {message}"

end LogLevel

/-- A log: its level, and whether it is kept in a file too. -/
structure Log where
  level : LogLevel := .info
  toFile : Bool := false
  deriving Inhabited

namespace Log

/-- The log of explicit choices over those of settings. Empty texts choose nothing. -/
def configure (level file : Option String) (settingsLevel : LogLevel) (settingsFile : Option String) :
    Log :=
  let given (t : Option String) : Option String := t.filter fun s => !s.isEmpty
  { level := ((given level).map LogLevel.ofName).getD settingsLevel
    toFile := ((given file) <|> (given settingsFile)).isSome }

def handlers (l : Log) : Nat := if l.toFile then 2 else 1

/-- The messages that the log takes, as they are written. -/
def lines (l : Log) (logger : String) (messages : List (LogLevel × String)) : List String :=
  (messages.filter fun (level, _) => l.level.takes level).map fun (level, m) => level.line logger m

end Log

end Workflow
