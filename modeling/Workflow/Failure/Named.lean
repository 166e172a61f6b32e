import Workflow.Value.Items

/-! Failures made from arguments with names. Every kind needs some arguments, takes some others, and may
    be given details, a hint and a mark besides. -/

namespace Workflow

namespace FailureKind

/-- The kinds that have labels. -/
def all : List FailureKind :=
  [.general, .compilation, .nodeExecution, .routing, .recursionLimit, .capability, .cancelled,
    .checkpoint, .threadNotFound, .invalidResume]

/-- The kind of a label. A run that was cancelled has two labels. -/
def ofLabel? (label : String) : Option FailureKind :=
  if label = "Cancelled" then some .cancelled else all.find? fun k => k.name == label

/-- The arguments without which there is no failure of the kind. -/
def needed : FailureKind → List String
  | .compilation => ["problems"]
  | .recursionLimit => ["limit"]
  | .cancelled | .threadNotFound => ["thread_id"]
  | .invalidResume => ["thread_id", "status"]
  | _ => ["message"]

/-- The arguments that say more about a failure of the kind. -/
def further : FailureKind → List String
  | .nodeExecution | .derived _ _ | .recursionLimit => ["node_id"]
  | .routing => ["source", "target", "possible_targets"]
  | .capability => ["kind", "capability"]
  | _ => []

/-- The kind adds nothing to what every failure takes. -/
def isBare (k : FailureKind) : Bool := k == .general || k == .checkpoint

/-- The kind brings a hint of its own. -/
def hints (k : FailureKind) : Bool := k == .compilation || k == .recursionLimit

end FailureKind

namespace Failure

/-- How messages name the making of a failure. -/
def making (k : FailureKind) : String := k.name ++ ".__init__()"

/-- Names in quotes with `and` before the last one. -/
def listed : List String → String
  | [] => ""
  | [n] => s!"'{n}'"
  | [n, m] => s!"'{n}' and '{m}'"
  | n :: ns => s!"'{n}', " ++ listed ns

/-- Refuses arguments that lack one that the kind needs. -/
def checkNeeded (k : FailureKind) (args : Fields) : Except Fault Unit :=
  match k.needed.filter fun n => !args.has n with
  | [] => .ok ()
  | missing =>
    let maker := if k.isBare then FailureKind.general else k
    let noun := if missing.length = 1 then "argument" else "arguments"
    .error (.type
      s!"{making maker} missing {missing.length} required positional {noun}: {listed missing}")

/-- What every failure may be given. -/
def extraNames : List String := ["details", "recovery_hint", "correlation_id"]

/-- Refuses an argument that no failure takes, or that the kind sets by itself. -/
def checkExtra (k : FailureKind) (args : Fields) : Except Fault Unit :=
  let extra := args.names.filter fun n => !k.needed.contains n && !k.further.contains n
  if k.hints && extra.contains "recovery_hint" then
    .error (.type (s!"loom.core.errors.{making .general} got multiple values for keyword argument " ++
      "'recovery_hint'"))
  else
    match extra.find? fun n => !extraNames.contains n with
    | none => .ok ()
    | some "message" =>
      .error (.type s!"{making .general} got multiple values for argument 'message'")
    | some n => .error (.type s!"{making .general} got an unexpected keyword argument '{n}'")

/-- What is given besides the arguments of the kind. -/
def extraOf (args : Fields) : Extra :=
  { details := match args.getD "details" with
      | .mapping es => es.map fun (k, v) => (k.text, v)
      | _ => []
    hint := args.getD "recovery_hint"
    correlation := args.getD "correlation_id" }

/-- The problems that a value names: a text is one problem. -/
def problemsOf : Value → Except Fault (List String)
  | .str s => .ok [s]
  | v => do return (← v.items).map Value.text

/-- The failure of a kind from arguments with names. -/
def ofArguments (k : FailureKind) (args : Fields) : Except Fault Failure := do
  if k.isBare then checkExtra k args
  checkNeeded k args
  let problems ← if k = .compilation then problemsOf (args.getD "problems") else .ok []
  checkExtra k args
  let extra := extraOf args
  let text := fun name => (args.getD name).text
  let value := args.getD
  match k with
  | .general => return general (text "message") extra
  | .compilation => return compilation problems extra
  | .nodeExecution => return nodeExecution (text "message") (value "node_id") extra
  | .derived _ _ =>
    return { nodeExecution (text "message") (value "node_id") extra with kind := k }
  | .routing =>
    let possible := value "possible_targets"
    let targets ← if possible.truthy then possible.items else .ok []
    return routing (text "message") (value "source") (value "target") targets extra
  | .recursionLimit => return recursionLimit (value "limit") (value "node_id") extra
  | .capability => return capability (text "message") (value "kind") (value "capability") extra
  | .cancelled => return ended (value "thread_id") extra
  | .checkpoint => return checkpoint (text "message") none extra
  | .threadNotFound => return threadNotFound (text "thread_id") extra
  | .invalidResume => return invalidResume (text "thread_id") (text "status") extra

/-- A failure of the named kind with its first argument alone. -/
def ofFirst (k : FailureKind) (argument : Value) : Except Fault Failure :=
  ofArguments k [(k.needed.headD "message", argument)]

end Failure

end Workflow
