import Workflow.Store.Column
import Workflow.Store.Payload

/-! A store of rows in one table. Rows are numbered in the order of writing, ids are unique, and old rows
    can be swept, thread by thread. -/

namespace Workflow.Store

structure Row where
  number : Nat
  id : String
  thread : String
  /-- A number, or a text that writes none. -/
  timestamp : Value
  payload : Payload
  deriving Inhabited

structure Table where
  name : String := "checkpoints"
  rows : List Row := []
  next : Nat := 1
  deriving Inhabited

namespace Table

/-- Why the column of times of a table does not take a value. -/
def timeProblem (name : String) : Value → String
  | .null | .float _ => s!"NOT NULL constraint failed: {name}.timestamp"
  | v => s!"Error binding parameter 5: type '{v.kindName}' is not supported"

/-- What is told of a row that is not written. -/
def refusal (problem : String) : Fault := .failure (.checkpoint s!"Failed to save checkpoint: {problem}")

/-- Writes a row, unless its id is taken. -/
def save (t : Table) (c : Checkpoint) : Except Fault Table := do
  let payload ← Payload.ofCheckpoint c
  if !fitsColumn c.step || exceedsTime c.timestamp then .error tooLarge
  else if !takesTime c.timestamp then .error (refusal (timeProblem t.name c.timestamp))
  else if t.rows.any fun r => r.id == c.id.text then
    .error (refusal s!"UNIQUE constraint failed: {t.name}.checkpoint_id")
  else
    return { t with
             rows := t.rows ++ [⟨t.next, c.id.text, c.thread.text, timeOf c.timestamp, payload⟩]
             next := t.next + 1 }

/-- The rows of a thread in the order of their numbers, the oldest first. -/
def ofThread (t : Table) (thread : String) : List Row :=
  (t.rows.filter fun r => r.thread == thread).mergeSort fun r s => decide (r.number ≤ s.number)

/-- What is told of a row that holds no checkpoint. Of octets that are no text, as much is shown as can be
    read. -/
def unreadable : Payload.Unreadable where
  text := "Corrupt checkpoint payload"
  octets bs _ :=
    let shown := String.ofList (Text.decodeAnyway none (bs.takeWhile fun b => b != 0))
    .plain (.other "OperationalError") s!"Could not decode to UTF-8 column 'data' with text '{shown}'"

def readRow (r : Row) : Except Fault Checkpoint := r.payload.read unreadable

def load (t : Table) (thread : String) : Except Fault (Option Checkpoint) :=
  match (t.ofThread thread).getLast? with
  | some r => (readRow r).map some
  | none => .ok none

def list (t : Table) (thread : String) : Except Fault (List Checkpoint) :=
  (t.ofThread thread).mapM readRow

def delete (t : Table) (thread : String) : Table × Nat :=
  ({ t with rows := t.rows.filter fun r => r.thread != thread }, (t.ofThread thread).length)

/-- Puts a text in place of the last row of a thread. -/
def corrupt (t : Table) (thread text : String) : Table :=
  match (t.ofThread thread).getLast? with
  | some last =>
    { t with rows := t.rows.map fun r =>
        if r.number = last.number then { r with payload := .text text } else r }
  | none => t

/-! ### Sweeping -/

/-- The threads of the rows, each once. -/
def threads (t : Table) : List String := (t.rows.map Row.thread).eraseDups

/-- The numbers of the last `n` rows of a thread, the last one first. -/
def keepList (t : Table) (thread : String) (n : Nat) : List Nat :=
  ((t.ofThread thread).reverse.take n).map Row.number

/-- The row is deleted when its thread is swept: it is not the latest one, and it is not listed or older
    than the limit. -/
def isSwept (thread : String) (latest : Nat) (keep : List Nat) (limit : Float) (r : Row) : Bool :=
  r.thread == thread && r.number != latest &&
    (!keep.contains r.number || isOlder limit r.timestamp)

/-- Sweeps one thread; answers how many rows were deleted. -/
def sweepThread (t : Table) (limit : Float) (n : Nat) (thread : String) : Except Fault (Table × Nat) :=
  let keep := t.keepList thread n
  match keep with
  | [] => .error (.plain .index "list index out of range")
  | latest :: _ =>
    let swept := isSwept thread latest keep limit
    .ok ({ t with rows := t.rows.filter fun r => !swept r }, t.rows.countP swept)

/-- Sweeps threads one after another, and adds up how many rows were deleted. -/
def sweepThreads (limit : Float) (n : Nat) (t : Table) (deleted : Nat) :
    (threads : List String) → Except Fault (Table × Nat)
  | [] => .ok (t, deleted)
  | thread :: threads => do
    let (t, k) ← t.sweepThread limit n thread
    sweepThreads limit n t (deleted + k) threads

/-- Sweeps all threads, or none: of each, at least one row and at most `perThread` rows stay, and but for
    the last row none that is older than the limit. -/
def sweepUntil (t : Table) (limit : Float) (perThread : Int) : Table × Except Fault Nat :=
  match sweepThreads limit (max 1 perThread).toNat t 0 t.threads with
  | .ok (t, deleted) => (t, .ok deleted)
  | .error f => (t, .error f)

/-- Sweeps all threads of rows that are older than `hours`. -/
def sweep (t : Table) (now hours : Float) (perThread : Int) : Table × Except Fault Nat :=
  t.sweepUntil (now - hours * 3600) perThread

/-- Sweeps all threads of rows that are older than so many whole hours. The hours in seconds have to be
    a binary number; how many rows may stay is asked of each thread, so it has to fit a column if there
    is one. -/
def cleanup (t : Table) (now : Float) (hours perThread : Int) : Except Fault (Table × Nat) := do
  let age ← Value.toFloat (hours * 3600)
  if t.rows.isEmpty || fitsColumn (max 1 perThread) then
    let (swept, deleted) := t.sweepUntil (now - age) perThread
    return (swept, ← deleted)
  else .error tooLarge

end Table

end Workflow.Store
