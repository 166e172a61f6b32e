import Workflow.Failure.Named
import Workflow.Reply
import Workflow.Value.Arithmetic

/-! Scripts: expressions that serve as node logic and as conditions. A script sees a copy of the state,
    which it may change for itself, and asks for what it needs by actions. -/

namespace Workflow

inductive CallForm where
  | invoke
  /-- As `invoke`, but the value alone, and a failure is raised. -/
  | unwrap
  | tool
  | model
  | a2a
  | mcp
  | skill
  deriving DecidableEq, Inhabited

inductive Script where
  | lit (v : Value)
  | cond (test yes no : Script)
  | state
  | get (field : Script)
  | item (e key : Script)
  /-- A value of the context by name. -/
  | context (name : String)
  | add (a b : Script)
  | size (e : Script)
  | equal (a b : Script)
  | atLeast (a b : Script)
  | not (e : Script)
  | list (es : List Script)
  | tuple (es : List Script)
  /-- A mapping of keys and values in turn. -/
  | mapping (es : List Script)
  /-- All in order; the value of the last. -/
  | seq (es : List Script)
  | set (field e : Script)
  | push (field e : Script)
  | log (e : Script)
  | suspend (e : List Script)
  | update (e : List Script)
  | raise (label : String) (message : Script)
  | sleep
  | cancel
  | forget
  | enabled (kind : Script)
  | call (form : CallForm) (arguments : List Script)
  deriving Inhabited

namespace Script

/-- A fault by the name of its kind, with a message as its only argument. -/
def faultNamed (label : String) (message : Value) : Fault :=
  match label with
  | "ValueError" => .plain .value message.text
  | "TypeError" => .plain .type message.text
  | "RuntimeError" => .plain .runtime message.text
  | "KeyError" => .key message
  | _ =>
    match Failure.ofFirst ((FailureKind.ofLabel? label).getD .general) message with
    | .ok f => .failure f
    | .error f => f

def contextValue (c : NodeContext) : String → Except Fault Value
  | "node_id" => .ok (.str c.node)
  | "thread_id" => .ok (.str c.thread)
  | "step" => .ok (.int c.step)
  | "resume_value" => .ok c.resumeValue
  | "resumed" => .ok (.bool c.resumed)
  | name => .error (.plain .attribute s!"'NodeContext' object has no attribute '{name}'")

def fieldOf (s : State) (field : Value) : Except Fault Value :=
  match field with
  | .str n =>
    match s.get? n with
    | some v => .ok v
    | none => .error (.key field)
  | v => do
    v.checkKey
    .error (.key v)

/-- The mapping of keys and values in turn. -/
def entriesOf (acc : List (Value × Value)) : List Value → Except Fault (List (Value × Value))
  | k :: v :: rest => do
    k.checkKey
    entriesOf (Value.insert k v acc) rest
  | _ => .ok acc

/-- The result of a call as a value, or its value alone. -/
def shown (form : CallForm) (r : CallResult) : Except Fault Value :=
  match form, r.outcome with
  | .unwrap, .ok v => .ok v
  | .unwrap, .error f => .error (.failure f)
  | _, _ => .ok r.toValue

/-- Calls a capability with the values of the arguments, by place. -/
def callWith (form : CallForm) (vs : List Value) : Action CallResult :=
  let arg := fun (i : Nat) => vs.getD i .null
  match form with
  | .invoke | .unwrap =>
    match CapabilityKind.parse (arg 0) with
    | .ok kind => Action.invoke kind (arg 1).text (arg 2) (arg 3)
    | .error f => .raise f
  | .tool => Action.callTool (arg 0).text (arg 1) (arg 2)
  | .model => Action.invoke .model (vs.getD 1 (.str "default")).text (arg 0) .null
  | .a2a => Action.invoke .a2a (arg 0).text (arg 1) .null
  | .mcp => Action.invoke .mcp (arg 0).text (arg 1) .null
  | .skill => Action.invoke .skill (arg 0).text (arg 1) .null

/-- Goes on with the value of a computation that may fault. -/
def lift {α β : Type} (r : Except Fault α) (f : α → Action β) : Action β :=
  match r with
  | .ok a => f a
  | .error e => .raise e

mutual

/-- The value of an expression and the state that it leaves. -/
def eval (c : NodeContext) : Script → State → Action (Value × State)
  | .lit v, s => .done (v, s)
  | .cond test yes no, s =>
    (eval c test s).bind fun (b, s) => if b.truthy then eval c yes s else eval c no s
  | .state, s => .done (.ofFields s, s)
  | .get field, s =>
    (eval c field s).bind fun (f, s) => lift (fieldOf s f) fun v => .done (v, s)
  | .item e key, s =>
    (eval c e s).bind fun (v, s) => (eval c key s).bind fun (k, s) =>
      lift (v.item k) fun w => .done (w, s)
  | .context name, s => lift (contextValue c name) fun v => .done (v, s)
  | .add a b, s =>
    (eval c a s).bind fun (v, s) => (eval c b s).bind fun (w, s) =>
      lift (v.add w) fun x => .done (x, s)
  | .size e, s =>
    (eval c e s).bind fun (v, s) => lift v.size fun n => .done (.int n, s)
  | .equal a b, s =>
    (eval c a s).bind fun (v, s) => (eval c b s).bind fun (w, s) => .done (.bool (v.equal w), s)
  | .atLeast a b, s =>
    (eval c a s).bind fun (v, s) => (eval c b s).bind fun (w, s) =>
      lift (v.atLeast w) fun x => .done (.bool x, s)
  | .not e, s => (eval c e s).bind fun (v, s) => .done (.bool (!v.truthy), s)
  | .list es, s => (evalAll c es s).bind fun (vs, s) => .done (.list vs, s)
  | .tuple es, s => (evalAll c es s).bind fun (vs, s) => .done (.tuple vs, s)
  | .mapping es, s =>
    (evalAll c es s).bind fun (vs, s) => lift (entriesOf [] vs) fun d => .done (.mapping d, s)
  | .seq es, s => (evalAll c es s).bind fun (vs, s) => .done (vs.getLastD .null, s)
  | .set field e, s =>
    (eval c field s).bind fun (f, s) => (eval c e s).bind fun (v, s) =>
      .done (.null, s.set f.text v)
  | .push field e, s =>
    (eval c field s).bind fun (f, s) => lift (fieldOf s f) fun old =>
      match old with
      | .list _ =>
        (eval c e s).bind fun (v, s) =>
          match s.getD f.text with
          | .list xs => .done (.null, s.set f.text (.list (xs ++ [v])))
          | _ => .done (.null, s)
      | v => .raise (.noAttribute v "append")
  | .log e, s => (eval c e s).bind fun (v, s) => .log v (.done (.null, s))
  | .suspend es, s =>
    (evalAll c es s).bind fun (vs, s) => .done (Reply.suspendValue (vs.getLastD .null), s)
  | .update es, s =>
    (evalAll c es s).bind fun (vs, s) => .done (Reply.updateValue (vs.getLastD (.mapping [])), s)
  | .raise label message, s => (eval c message s).bind fun (m, _) => .raise (faultNamed label m)
  | .sleep, s => .done (.null, s)
  | .cancel, s => .cancel (.done (.null, s))
  | .forget, s => .forget (.done (.null, s))
  | .enabled kind, s =>
    (eval c kind s).bind fun (k, s) => lift (CapabilityKind.parse k) fun kind =>
      .enabled kind fun b => .done (.bool b, s)
  | .call form es, s =>
    (evalAll c es s).bind fun (vs, s) => (callWith form vs).bind fun r =>
      lift (shown form r) fun v => .done (v, s)
termination_by structural e => e

/-- The values of expressions, from left to right. -/
def evalAll (c : NodeContext) : List Script → State → Action (List Value × State)
  | [], s => .done ([], s)
  | e :: es, s =>
    (eval c e s).bind fun (v, s) => (evalAll c es s).bind fun (vs, s) => .done (v :: vs, s)
termination_by structural es => es

end

def logic (e : Script) : Logic := fun s c => (eval c e s).bind fun (v, _) => .done (Reply.ofValue v)

/-- The script as a condition, which is not heard when it asks for anything. -/
def condition (e : Script) : Condition := fun s =>
  match ((eval default e s).run [] {} {}).2 with
  | .ok (v, _) => .ok v
  | .error f => .error f

/-! ### Reading -/

/-- A null literal in place of what is missing. -/
def absent : Script := .lit .null

/-- The expression of an operator and its arguments as they are written. -/
def ofOperator (op : String) (raw : List Value) (es : List Script) : Script :=
  let arg := fun (i : Nat) => es.getD i absent
  match op with
  | "if" => .cond (arg 0) (arg 1) (arg 2)
  | "state" => .state
  | "get" => .get (arg 0)
  | "at" => .item (arg 0) (arg 1)
  | "ctx" => .context (raw.getD 0 .null).text
  | "+" => .add (arg 0) (arg 1)
  | "len" => .size (arg 0)
  | "==" => .equal (arg 0) (arg 1)
  | ">=" => .atLeast (arg 0) (arg 1)
  | "not" => .not (arg 0)
  | "list" => .list es
  | "tuple" => .tuple es
  | "dict" => .mapping es
  | "seq" => .seq es
  | "set" => .set (arg 0) (arg 1)
  | "push" => .push (arg 0) (arg 1)
  | "log" => .log (arg 0)
  | "suspend" => .suspend es
  | "update" => .update es
  | "raise" => .raise (raw.getD 0 .null).text (arg 1)
  | "sleep" => .sleep
  | "cancel" => .cancel
  | "forget" => .forget
  | "enabled" => .enabled (arg 0)
  | "invoke" => .call .invoke es
  | "unwrap" => .call .unwrap es
  | "tool" => .call .tool es
  | "model" => .call .model es
  | "a2a" => .call .a2a es
  | "mcp" => .call .mcp es
  | "skill" => .call .skill es
  | op => .raise "ValueError" (.lit (.str s!"unknown operator: {op}"))

mutual

/-- The expression that a value writes down: a list is an operator with its arguments, all else a
    literal, which `literal` reads. -/
def ofValue (literal : Value → Value) : Value → Script
  | .list [] => .lit (.list [])
  | .list (.str "lit" :: v :: _) => .lit (literal v)
  | .list (op :: args) => ofOperator op.text args (ofValues literal args)
  | v => .lit (literal v)
termination_by structural v => v

def ofValues (literal : Value → Value) : List Value → List Script
  | [] => []
  | v :: vs => ofValue literal v :: ofValues literal vs
termination_by structural vs => vs

end

end Script

end Workflow
