import Workflow.Text.Path
import Workflow.Value.Whole
import Workflow.Checked
import Workflow.Config.Basic
import Workflow.Config.LogLevel

/-! Settings: what the environment and the embedding program choose for all runs. Every choice is
    checked, and all problems are told together. -/

namespace Workflow

structure Settings where
  recursionLimit : Int := 25
  checkpointer : String := "memory"
  checkpointPath : Option String := none
  mode : CheckpointMode := .everyStep
  logLevel : LogLevel := .info
  logFile : Option String := none
  emitsEvents : Bool := true
  deriving Inhabited

namespace Checked

variable {α : Type}

/-- The whole number that a text writes: blanks around it, one sign, single underscores between digits,
    and a fraction of zeros may stand in it. -/
def integerOfText? (s : String) : Option Int :=
  let body := Text.trim Text.isSpace s.toList
  let whole := body.takeWhile fun c => c != '.'
  let fraction := (body.dropWhile fun c => c != '.').drop 1
  if body.all (fun c => c.toNat < 128) && fraction.all (fun c => c == '0') then
    Value.signed? whole
  else none

/-- A whole number, or what stands for one. -/
def integer : Value → Checked Int
  | .int n => .ok n
  | .bool b => .ok (if b then 1 else 0)
  | .float x =>
    match Dyadic.ofFloat? x with
    | none => problem "Input should be a finite number"
    | some d =>
      if (Number.ofInt? d.truncate).any fun y => y == x then .ok d.truncate
      else problem "Input should be a valid integer, got a number with a fractional part"
  | .str s => written (some s)
  | .bytes bs => written (ofOctets? bs)
  | _ => problem "Input should be a valid integer"
where
  written (s : Option String) : Checked Int :=
    match s.bind integerOfText? with
    | some n => .ok n
    | none => problem "Input should be a valid integer, unable to parse string as an integer"

def positive (v : Value) : Checked Int :=
  match integer v with
  | .ok n => if 0 < n then .ok n else problem "Input should be greater than 0"
  | .error ps => .error ps

end Checked

namespace Settings

/-- What the names of environment variables begin with, in lower case. -/
def variableMark : String := "loom_"

/-- The value of a setting in the environment, where names may be in any case; the last one counts. -/
def fromEnvironment? (environment : List (String × String)) (name : String) : Option String :=
  ((environment.filter fun (n, _) => Text.lower n == variableMark ++ name).getLast?).map (·.2)

/-- What is chosen for a setting: a given value, or else the environment's. -/
def chosen? (environment : List (String × String)) (given : Fields) (name : String) : Option Value :=
  given.get? name <|> (fromEnvironment? environment name).map .str

def level (v : Value) : Checked LogLevel := do
  let s ← Checked.text v
  match LogLevel.settable.find? fun l => l.name == Text.upper s with
  | some l => .ok l
  | none => Checked.problem s!"Value error, Invalid log level: {s}"

def backends : List (String × String) :=
  [("memory", "memory"), ("sqlite", "sqlite"), ("json", "json")]

def modes : List (String × CheckpointMode) := CheckpointMode.all.map fun m => (m.name, m)

/-- The settings of an environment and given values. -/
def check (environment : List (String × String)) (given : Fields) : Checked Settings :=
  let read {α : Type} (name : String) (check : Value → Checked α) (absent : α) : Checked α :=
    Checked.under name (match chosen? environment given name with
      | some v => check v
      | none => .ok absent)
  let text := Checked.optional Checked.text
  (Except.ok Settings.mk : Checked _)
    |> Checked.feed (read "recursion_limit" Checked.positive 25)
    |> Checked.feed (read "checkpointer" (Checked.oneOf backends "'memory', 'sqlite' or 'json'") "memory")
    |> Checked.feed (read "checkpoint_path" text none)
    |> Checked.feed (read "checkpoint_mode"
        (Checked.oneOf modes "'every_step' or 'interrupts_only'") .everyStep)
    |> Checked.feed (read "log_level" level .info)
    |> Checked.feed (read "log_file" text none)
    |> Checked.feed (read "emit_events" Checked.boolean true)

/-- The settings, or all problems in one line. -/
def load (environment : List (String × String)) (given : Fields := []) : Except Fault Settings :=
  match check environment given with
  | .ok s => .ok s
  | .error ps => .error (.plain .validation ("; ".intercalate (ps.map PathProblem.line)))

/-- Where checkpoints are kept. -/
def resolvedPath (s : Settings) : String :=
  match s.checkpointPath.filter fun p => !p.isEmpty with
  | some p => Text.tidyPath p
  | none => if s.checkpointer = "json" then "~/.loom/checkpoints" else "~/.loom/graph_checkpoints.db"

def describe (s : Settings) : Value :=
  let optional (t : Option String) : Value := (t.map Value.str).getD .null
  .ofFields [("recursion_limit", .int s.recursionLimit), ("checkpointer", .str s.checkpointer),
    ("checkpoint_path", optional s.checkpointPath), ("checkpoint_mode", .str s.mode.name),
    ("log_level", .str s.logLevel.name), ("log_file", optional s.logFile),
    ("emit_events", .bool s.emitsEvents)]

end Settings

/-- The configuration that settings choose. -/
def Config.ofSettings (s : Settings) : Config :=
  { recursionLimit := s.recursionLimit
    mode := s.mode
    emitsEvents := s.emitsEvents
    checkpointer := s.checkpointer
    path := some s.resolvedPath }

end Workflow
