import Workflow.Text.Case
import Workflow.Store.Table
import Workflow.Store.Files

/-! Stores of checkpoints. All of them keep, for each thread, checkpoints in the order of saving; they
    differ in what they can hold, and in what outlives the process. -/

namespace Workflow

inductive Store where
  /-- Keeps checkpoints as they are, in the order of saving. -/
  | memory (saved : List Checkpoint)
  | table (t : Store.Table)
  | files (s : Store.Files)
  /-- As `memory`, for a number of further saves; then every save fails with the hint. -/
  | limited (saved : List Checkpoint) (saves : Nat) (hint : Option String)
  deriving Inhabited

namespace Store

def ofThread (saved : List Checkpoint) (thread : String) : List Checkpoint :=
  saved.filter fun c => c.isOf thread

/-- The checkpoints of all other threads. -/
def without (saved : List Checkpoint) (thread : String) : List Checkpoint :=
  saved.filter fun c => !c.isOf thread

theorem ofThread_append (saved : List Checkpoint) (c : Checkpoint) (thread : String) :
    ofThread (saved ++ [c]) thread = ofThread saved thread ++ if c.isOf thread then [c] else [] := by
  by_cases h : c.isOf thread <;> simp [ofThread, h]

theorem ofThread_without (saved : List Checkpoint) (thread : String) :
    ofThread (without saved thread) thread = [] := by
  simp [ofThread, without, List.filter_filter]

/-- Saves a checkpoint after all others. -/
def save (s : Store) (c : Checkpoint) : Except Fault Store :=
  match s with
  | .memory saved => .ok (.memory (saved ++ [c]))
  | .table t => (t.save c).map .table
  | .files f => (f.save c).map .files
  | .limited saved (n + 1) hint => .ok (.limited (saved ++ [c]) n hint)
  | .limited _ 0 hint => .error (.failure (.checkpoint "disk full" hint))

/-- Saves a checkpoint; what a save leaves that is refused is told too. -/
def write (s : Store) (c : Checkpoint) : Store × Except Fault Unit :=
  match s with
  | .files f => let (f, r) := f.write c; (.files f, r)
  | s =>
    match s.save c with
    | .ok s => (s, .ok ())
    | .error f => (s, .error f)

def load (s : Store) (thread : String) : Except Fault (Option Checkpoint) :=
  match s with
  | .memory saved | .limited saved _ _ => .ok (ofThread saved thread).getLast?
  | .table t => t.load thread
  | .files f => f.load thread

/-- The checkpoints of a thread, the oldest first. -/
def list (s : Store) (thread : String) : Except Fault (List Checkpoint) :=
  match s with
  | .memory saved | .limited saved _ _ => .ok (ofThread saved thread)
  | .table t => t.list thread
  | .files f => f.list thread

/-- Deletes the checkpoints of a thread; answers how many there were. -/
def delete (s : Store) (thread : String) : Except Fault (Store × Nat) :=
  match s with
  | .memory saved => .ok (.memory (without saved thread), (ofThread saved thread).length)
  | .limited saved n hint =>
    .ok (.limited (without saved thread) n hint, (ofThread saved thread).length)
  | .table t => let (t, n) := t.delete thread; .ok (.table t, n)
  | .files f => (f.delete thread).map fun (f, n) => (.files f, n)

/-- The threads of a store in memory, in the order of their first checkpoints. -/
def threads (s : Store) : List String :=
  match s with
  | .memory saved | .limited saved _ _ => (saved.map fun c => c.thread.text).eraseDups
  | _ => []

/-- Puts a text in place of the last checkpoint of a thread, where texts are kept. -/
def corrupt (s : Store) (thread text : String) : Store :=
  match s with
  | .table t => .table (t.corrupt thread text)
  | .files f => .files (f.corrupt thread text)
  | s => s

/-- The store keeps its checkpoints when the process ends. -/
def isDurable : Store → Bool
  | .table _ | .files _ => true
  | _ => false

/-- The store as another process finds it at the same place. -/
def reopened : Store → Store
  | .memory _ => .memory []
  | .limited _ saves hint => .limited [] saves hint
  | s => s

/-! ### Kinds of stores -/

/-- The kinds of stores that can be asked for by name. -/
inductive Backend where
  | memory | sqlite | json
  deriving DecidableEq, Inhabited

namespace Backend

def name : Backend → String
  | .memory => "memory"
  | .sqlite => "sqlite"
  | .json => "json"

def ofName (name : String) : Except Fault Backend :=
  match Text.lower name with
  | "memory" => .ok .memory
  | "sqlite" => .ok .sqlite
  | "json" => .ok .json
  | other =>
    .error (.value
      s!"Unknown checkpointer backend '{other}'. Available: memory, sqlite, json")

/-- Where a store of the kind is kept unless a place is given. -/
def defaultPath : Backend → String
  | .json => "~/.loom/checkpoints"
  | _ => "~/.loom/graph_checkpoints.db"

def create (b : Backend) (path : String) : Store :=
  match b with
  | .memory => .memory []
  | .sqlite => .table {}
  | .json => .files { directory := path }

end Backend

/-- The kind of a store as it is shown. -/
def kindName : Store → String
  | .memory _ => "MemoryCheckpointer"
  | .table _ => "SQLiteCheckpointer"
  | .files _ => "JSONFileCheckpointer"
  | .limited _ _ _ => "FailingCheckpointer"

end Store

end Workflow
