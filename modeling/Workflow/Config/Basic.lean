import Workflow.Value.Arithmetic
import Workflow.Value.Literal

/-! Configurations of runs: the bound on steps, when checkpoints are written, where a run pauses. A call
    may override parts of a configuration; what is not overridden stays. -/

namespace Workflow

inductive CheckpointMode where
  | everyStep
  /-- Only when it starts, pauses and ends. -/
  | interruptsOnly
  deriving DecidableEq, Inhabited

namespace CheckpointMode

def name : CheckpointMode → String
  | .everyStep => "every_step"
  | .interruptsOnly => "interrupts_only"

def all : List CheckpointMode := [.everyStep, .interruptsOnly]

def ofValue (v : Value) : Except Fault CheckpointMode :=
  match all.find? fun m => v.equal (.str m.name) with
  | some m => .ok m
  | none => .error (.notMember v "CheckpointMode")

end CheckpointMode

structure Config where
  /-- How many steps a run may take; positive. -/
  recursionLimit : Int := 25
  /-- The nodes to pause before, in order and each once. -/
  before : List String := []
  /-- The nodes to pause after, in order and each once. -/
  after : List String := []
  mode : CheckpointMode := .everyStep
  emitsEvents : Bool := true
  /-- The kind of store, where no store is given. -/
  checkpointer : String := "memory"
  path : Option String := none
  deriving DecidableEq, Inhabited

/-- What a call overrides; `null` overrides nothing. -/
structure Overrides where
  recursionLimit : Value := .null
  before : Value := .null
  after : Value := .null
  mode : Value := .null
  deriving Inhabited

namespace Config

def nameSet (names : List String) : List String := names.eraseDups.mergeSort fun a b => decide (a ≤ b)

/-- What a value lists; nothing for a value that counts as false. -/
def listed (v : Value) : Except Fault (List Value) := if v.truthy then v.items else .ok []

/-- The names that a value lists. What is listed and is no text is the name of no node. -/
def namesOf (v : Value) : Except Fault (List String) := do
  let items ← listed v
  items.forM Value.checkKey
  return nameSet (items.filterMap Value.str?)

def limitOf (v : Value) : Except Fault Int :=
  let bounded (n : Int) : Except Fault Int :=
    if 0 < n then .ok n else .error (.value s!"recursion_limit must be positive, got {v.text}")
  match v with
  | .int n => bounded n
  | .bool b => bounded (if b then 1 else 0)
  | v => .error (.type s!"'<=' not supported between instances of '{v.fullKindName}' and 'int'")

/-- The value that an override gives, or the one that is in force. -/
def choose {α : Type} (inForce : α) (read : Value → Except Fault α) (v : Value) : Except Fault α :=
  if v.isNull then .ok inForce else read v

/-- The configuration with a call's overrides. -/
def override (c : Config) (o : Overrides) : Except Fault Config := do
  let recursionLimit ← choose c.recursionLimit limitOf o.recursionLimit
  let before ← choose c.before namesOf o.before
  let after ← choose c.after namesOf o.after
  let mode ← choose c.mode CheckpointMode.ofValue o.mode
  return { c with recursionLimit, before, after, mode }

/-- What is kept with a run, so that it goes on as it was started. -/
def metadata (c : Config) : Value :=
  .ofFields [("recursion_limit", .int c.recursionLimit),
    ("interrupt_before", .list (c.before.map .str)), ("interrupt_after", .list (c.after.map .str)),
    ("checkpoint_mode", .str c.mode.name)]

def describe (c : Config) : Value :=
  .ofFields [("recursion_limit", .int c.recursionLimit), ("checkpointer", .str c.checkpointer),
    ("path", (c.path.map Value.str).getD .null), ("mode", .str c.mode.name),
    ("interrupt_before", .list (c.before.map .str)), ("interrupt_after", .list (c.after.map .str)),
    ("emit_events", .bool c.emitsEvents)]

end Config

namespace Overrides

/-- Two different values without an order, the later one first. -/
def unordered? : List Value → Option (Value × Value)
  | [] => none
  | v :: vs =>
    match vs.find? fun w => !v.equal w && !(w.atLeast v).isOk with
    | some w => some (w, v)
    | none => unordered? vs

/-- Refuses a list of values that cannot be put in order. -/
def checkOrder (v : Value) : Except Fault Unit := do
  match unordered? (← Config.listed v) with
  | none => return ()
  | some (v, w) =>
    .error (.type s!"'<' not supported between instances of '{v.fullKindName}' and '{w.fullKindName}'")

/-- The nodes to pause at are written down in order, so that what is listed as such must have one. -/
def checkNames (o : Overrides) : Except Fault Unit := do
  checkOrder o.before
  checkOrder o.after

/-- The overrides of a call over those that were kept with the run. -/
def onto (o kept : Overrides) : Overrides where
  recursionLimit := if o.recursionLimit.isNull then kept.recursionLimit else o.recursionLimit
  before := if o.before.isNull then kept.before else o.before
  after := if o.after.isNull then kept.after else o.after
  mode := if o.mode.isNull then kept.mode else o.mode

def isEmpty (o : Overrides) : Bool :=
  o.recursionLimit.isNull && o.before.isNull && o.after.isNull && o.mode.isNull

/-- The overrides that bring back what was kept with a run. -/
def ofMetadata (v : Value) : Except Fault Overrides :=
  match v with
  | .mapping _ =>
    .ok {
      recursionLimit := v.getD "recursion_limit"
      before := v.getD "interrupt_before"
      after := v.getD "interrupt_after"
      mode := v.getD "checkpoint_mode" }
  | v => .error (.noAttribute v "get")

end Overrides

end Workflow
