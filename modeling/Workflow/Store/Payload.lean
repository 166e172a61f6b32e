import Workflow.Checkpoint.Basic
import Workflow.Json.Normal
import Workflow.Json.Reader
import Workflow.Text.Octets

/-! What durable stores keep of a checkpoint: the value that its text reads back as, or a text or mere
    octets that were put in its place. -/

namespace Workflow.Store

inductive Payload where
  | document (v : Value)
  | text (s : String)
  | octets (bs : List UInt8)
  deriving Inhabited

/-- What to do about a state that no durable store can keep. -/
def serialisableHint : String :=
  "Keep state values to JSON types when using a durable checkpointer."

namespace Payload

/-- The form in which a checkpoint is kept, or the refusal of a value that JSON cannot hold. -/
def ofCheckpoint (c : Checkpoint) : Except Fault Payload :=
  match Json.normal c.toValue with
  | .ok v => .ok (.document v)
  | .error f =>
    .error (.failure (.checkpoint
      s!"Checkpoint for thread {c.thread.text} is not JSON-serialisable: {f.message}"
      (some serialisableHint)))

/-- What is told of a content that is no checkpoint. -/
structure Unreadable where
  /-- What a message begins with that tells of a text which is no JSON. -/
  text : String
  /-- The fault of octets that are no text. -/
  octets : List UInt8 → Text.OctetProblem → Fault

/-- The checkpoint that a text writes. -/
def readText (unreadable : Unreadable) (s : String) : Except Fault Checkpoint :=
  match Json.read s with
  | .ok v => Checkpoint.ofValue v
  | .error (.plain .json m) => .error (.failure (.checkpoint s!"{unreadable.text}: {m}"))
  | .error f => .error f

/-- The checkpoint that is kept. -/
def read (unreadable : Unreadable) : Payload → Except Fault Checkpoint
  | .document v => Checkpoint.ofValue v
  | .text s => readText unreadable s
  | .octets bs =>
    match Text.decode bs with
    | .ok s => readText unreadable s
    | .error p => .error (unreadable.octets bs p)

end Payload

end Workflow.Store
