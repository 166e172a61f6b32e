import Workflow.Action
import Workflow.Json.Reader

/-! Tool calls in messages: what a message asks for, and the message that answers a call. -/

namespace Workflow

structure ToolCall where
  /-- The caller's mark, or one made from the place of the call. -/
  id : Value
  name : String
  arguments : List (Value × Value)
  deriving Inhabited

namespace ToolCall

/-- The calls that a message carries, as a key of a mapping or as an attribute. -/
def pending (message : Value) : Except Fault (List Value) :=
  let calls := match message with
    | .mapping _ => message.getD "tool_calls"
    | .object _ fs => Fields.getD fs "tool_calls"
    | _ => .null
  if calls.truthy then calls.items else .ok []

/-- The mark of a call that has none of its own, by its place. -/
def placeMark (index : Nat) : String := s!"call_{index}"

/-- What a call is read from: a mapping, or an object with attributes. -/
def source (call : Value) : Value :=
  match call with
  | .mapping es => .mapping es
  | .object _ fs =>
    .ofFields [("id", Fields.getD fs "id"), ("name", Fields.getD fs "name"),
      ("arguments", Fields.getD fs "arguments")]
  | _ => .ofFields [("arguments", .null)]

/-- The name and the arguments as they are written, by themselves or under `function`. -/
def written (call : Value) : Value × Value :=
  match call.getD "function" with
  | .mapping fs => (Value.getD (.mapping fs) "name", Value.getD (.mapping fs) "arguments")
  | _ => (call.getD "name", (call.get? "arguments").getD (call.getD "args"))

/-- The arguments that a value gives: a mapping, the JSON text of one, or nothing. -/
def readArguments (v : Value) : Except Fault Value :=
  match v with
  | .str s => if (Text.strip s).isEmpty then .ok (.mapping []) else Json.read s
  | v => .ok v

def parse (index : Nat) (call : Value) : Except Fault ToolCall := do
  let call := source call
  let id := if (call.getD "id").truthy then call.getD "id" else .str (placeMark index)
  let (name, arguments) := written call
  if !name.truthy then .error (.value s!"Tool call {id.text} has no name")
  else
    match ← readArguments arguments with
    | .null => return ⟨id, name.text, []⟩
    | .mapping es => return ⟨id, name.text, es⟩
    | _ => .error (.value s!"Tool call {id.text} arguments must be an object")

def answer (id : Value) (name : String) (content : Value) : Value :=
  .ofFields [("role", .str "tool"), ("tool_call_id", id), ("name", .str name), ("content", content)]

/-- The message that tells what went wrong with a call. -/
def complaint (id : Value) (name message : String) : Value :=
  .ofFields [("role", .str "tool"), ("tool_call_id", id), ("name", .str name),
    ("content", .str s!"Error: {message}"), ("status", .str "error")]

def resultMessage (call : ToolCall) (r : CallResult) : Value :=
  match r.outcome with
  | .ok v => answer call.id call.name v
  | .error f => complaint call.id call.name f.message

/-- Serves the call at a place: a call that cannot be read is answered at once. -/
def serve (index : Nat) (call : Value) : Action Value :=
  match parse index call with
  | .error f => .done (complaint (.str (placeMark index)) "unknown" f.message)
  | .ok c => (Action.callTool c.name (.mapping c.arguments) c.id).bind fun r => .done (resultMessage c r)

/-- Serves calls in order, counting from a place; one message answers each. -/
def serveAll : (index : Nat) → List Value → Action (List Value)
  | _, [] => .done []
  | index, call :: calls =>
    (serve index call).bind fun m => (serveAll (index + 1) calls).bind fun ms => .done (m :: ms)

end ToolCall

end Workflow
