import Workflow.Proofs.Records
import Workflow.Step.Basic

/-! Tool nodes: the messages that answer the calls of the last message. Main statement: there is one for each
    call, in order, and it carries the call's own id, if there is one, or else one made from the place of the call
    (`calls_answered_in_order`). A call that cannot be read is answered under its place even if it has an id
    (`nameless_call_loses_id`). -/

namespace Workflow

/-! ### Actions one after another -/

theorem Action.run_bind {α β : Type} {ps : Providers} {flags : CapabilityFlags} {a : Action α} {f : α → Action β}
    {e e' : Effects} {x : α} (h : a.run ps flags e = (e', .ok x)) :
    (a.bind f).run ps flags e = (f x).run ps flags e' := by
  induction a generalizing e with
  | done y =>
    obtain ⟨rfl, rfl⟩ : e = e' ∧ y = x := by simpa [Action.run] using h
    rfl
  | raise => simp [Action.run] at h
  | call _ _ _ next ih => exact ih _ h
  | resolve _ next ih => exact ih _ h
  | enabled _ next ih => exact ih _ h
  | cancel next ih | forget next ih | log _ next ih => exact ih h

namespace ToolCall

variable {index : Nat} {call m : Value} {calls : List Value} {c : ToolCall}

/-! ### What calls say -/

/-- The id that a call carries, `null` without one. -/
def carried : Value → Value
  | .object _ fs => Fields.getD fs "id"
  | call => call.getD "id"

/-- The id that an answer to the call in a place refers to. -/
def due (index : Nat) (call : Value) : Value :=
  if (carried call).truthy then carried call else .str (placeMark index)

/-- The call names a tool and says what it is given: a mapping, the JSON text of one, or nothing. -/
structure Legible (call : Value) : Prop where
  named : (written (source call)).1.truthy = true
  given : ∃ v, readArguments (written (source call)).2 = .ok v ∧ (v = .null ∨ ∃ es, v = .mapping es)

theorem getD_ofFields_cons {name other : String} {v : Value} {fs : Fields} :
    (Value.ofFields ((name, v) :: fs)).getD other = if other = name then v else (Value.ofFields fs).getD other := by
  by_cases same : other = name <;>
    simp [Value.ofFields, Value.getD, Value.get?, Value.find?, Value.equal_str, same]

theorem getD_source (call : Value) : (source call).getD "id" = carried call := by
  cases call <;> simp [source, carried, getD_ofFields_cons] <;> rfl

theorem parse_of_legible (h : Legible call) (index : Nat) :
    ∃ es, parse index call = .ok ⟨due index call, (written (source call)).1.text, es⟩ := by
  obtain ⟨named, v, read, rfl | ⟨es, rfl⟩⟩ := h
  · refine ⟨[], ?_⟩
    simp [parse, named, read, getD_source, due, bind, Except.bind, pure, Except.pure]
  · refine ⟨es, ?_⟩
    simp [parse, named, read, getD_source, due, bind, Except.bind, pure, Except.pure]

theorem legible_of_parse (h : parse index call = .ok c) : Legible call := by
  simp only [parse, bind, Except.bind] at h
  split at h
  · cases h
  · rename_i named
    split at h
    · cases h
    · rename_i v read
      refine ⟨by simpa using named, v, read, ?_⟩
      split at h
      · exact .inl rfl
      · exact .inr ⟨_, rfl⟩
      · cases h

/-! ### What calls are answered with -/

/-- A message that answers the call in a place, whatever its content. -/
structure Answers (index : Nat) (call m : Value) : Prop where
  role : m.getD "role" = .str "tool"
  /-- The answer refers to its call. -/
  refers : Legible call ∨ (carried call).truthy = false → m.getD "tool_call_id" = due index call
  names : Legible call → m.getD "name" = .str (written (source call)).1.text
  /-- The id of a call that cannot be read is not looked at. -/
  unread : ¬Legible call → m.getD "tool_call_id" = .str (placeMark index) ∧ m.getD "name" = .str "unknown"

theorem answers_resultMessage (legible : Legible call) (es : List (Value × Value)) (r : CallResult) :
    Answers index call (resultMessage ⟨due index call, (written (source call)).1.text, es⟩ r) := by
  obtain ⟨kind, name, outcome | v, callId⟩ := r
  · refine ⟨?_, fun _ => ?_, fun _ => ?_, fun h => absurd legible h⟩ <;>
      simp [resultMessage, complaint, getD_ofFields_cons]
  · refine ⟨?_, fun _ => ?_, fun _ => ?_, fun h => absurd legible h⟩ <;>
      simp [resultMessage, answer, getD_ofFields_cons]

theorem answers_complaint (illegible : ¬Legible call) (message : String) :
    Answers index call (complaint (.str (placeMark index)) "unknown" message) := by
  refine ⟨?_, ?_, fun h => absurd h illegible, fun _ => ⟨?_, ?_⟩⟩
  · simp [complaint, getD_ofFields_cons]
  · rintro (legible | bare)
    · exact absurd legible illegible
    · simp [complaint, getD_ofFields_cons, due, bare]
  · simp [complaint, getD_ofFields_cons]
  · simp [complaint, getD_ofFields_cons]

theorem argumentsOf_mapping (es : List (Value × Value)) : Providers.argumentsOf (.mapping es) = .ok es := by
  cases es <;> rfl

/-- A tool call is answered by a result, however it goes. -/
theorem run_callTool (ps : Providers) (flags : CapabilityFlags) (tool : String) (es : List (Value × Value)) (id : Value)
    (e : Action.Effects) : ∃ e' r, (Action.callTool tool (.mapping es) id).run ps flags e = (e', .ok r) := by
  simp only [Action.callTool, Action.run]
  cases ps.resolve flags tool with
  | none => exact ⟨_, _, rfl⟩
  | some kind =>
    simp only [Action.invoke, argumentsOf_mapping, Action.run]
    exact ⟨_, _, rfl⟩

section
variable (ps : Providers) (flags : CapabilityFlags) (e : Action.Effects)

theorem run_serve (index : Nat) (call : Value) :
    ∃ e' m, (serve index call).run ps flags e = (e', .ok m) ∧ Answers index call m := by
  by_cases legible : Legible call
  · obtain ⟨es, parsed⟩ := parse_of_legible legible index
    obtain ⟨e', r, ran⟩ := run_callTool ps flags (written (source call)).1.text es (due index call) e
    refine ⟨e', _, ?_, answers_resultMessage legible es r⟩
    simp only [serve, parsed]
    rw [Action.run_bind ran]
    rfl
  · cases parsed : parse index call with
    | ok c => exact absurd (legible_of_parse parsed) legible
    | error f =>
      refine ⟨e, _, ?_, answers_complaint legible f.message⟩
      simp only [serve, parsed, Action.run]

theorem run_serveAll (index : Nat) (calls : List Value) :
    ∃ e' ms, (serveAll index calls).run ps flags e = (e', .ok ms) ∧ ms.length = calls.length ∧
      ∀ i call m, calls[i]? = some call → ms[i]? = some m → Answers (index + i) call m := by
  induction calls generalizing index e with
  | nil => exact ⟨e, [], rfl, rfl, by simp⟩
  | cons call calls ih =>
    obtain ⟨e₁, m, ran, answers⟩ := run_serve ps flags e index call
    obtain ⟨e₂, ms, rest, length, each⟩ := ih e₁ (index + 1)
    refine ⟨e₂, m :: ms, ?_, by simp [length], ?_⟩
    · rw [serveAll, Action.run_bind ran, Action.run_bind rest]
      rfl
    · rintro (_ | i) call' m' hc hm
      · obtain rfl : call = call' := by simpa using hc
        obtain rfl : m = m' := by simpa using hm
        exact answers
      · have := each i call' m' (by simpa using hc) (by simpa using hm)
        rwa [Nat.add_right_comm] at this

end

/-- The message carries the list of tool calls, under a key or as a field. -/
inductive Carries (calls : List Value) : Value → Prop
  | key {es : List (Value × Value)} (h : (Value.mapping es).getD "tool_calls" = .list calls) :
    Carries calls (.mapping es)
  | field {kind : String} {fs : Fields} (h : Fields.getD fs "tool_calls" = .list calls) :
    Carries calls (.object kind fs)

theorem pending_of_carries (h : Carries calls m) : pending m = .ok calls := by
  have read : (if (Value.list calls).truthy then (Value.list calls).items else .ok []) = .ok calls := by
    cases calls <;> rfl
  cases h with
  | key h => simpa only [pending, h] using read
  | field h => simpa only [pending, h] using read

end ToolCall

/-! ### Tool nodes -/

namespace Node

open ToolCall

variable {n : Node} {state : State} {calls : List Value}

/-- The last message in the state of a tool node carries the list of tool calls. -/
structure Asked (n : Node) (state : State) (calls : List Value) : Prop where
  tool : n.kind = .tool
  carried : ∃ messages message,
    (state.getD n.messagesKey = .list messages ∨ state.getD n.messagesKey = .tuple messages) ∧
    messages.getLast? = some message ∧ Carries calls message

/-- What a tool node adds to the state. -/
def answered (n : Node) (answers : List Value) : Value :=
  if answers.isEmpty then .mapping [] else .ofFields [(n.messagesKey, .list answers)]

theorem runTools_eq (h : n.Asked state calls) : n.runTools state =
    match calls with
    | [] => .done (.update (.mapping []))
    | calls => (serveAll 0 calls).bind fun ms => .done (.update (.ofFields [(n.messagesKey, .list ms)])) := by
  obtain ⟨-, messages, message, given, last, carries⟩ := h
  have read : n.messages state = .ok messages := by
    rcases given with given | given <;> simp [Node.messages, given]
  simp only [runTools, read, last, bind, Except.bind, pending_of_carries carries]
  cases calls <;> rfl

/-- A tool node answers the calls one for one in order. -/
theorem calls_answered_in_order (h : n.Asked state calls) (ps : Providers) (context : NodeContext)
    (effects : Action.Effects) :
    ∃ answers, (n.run ps state context effects).2 = .ok (.update (n.answered answers)) ∧ answers.length = calls.length ∧
      ∀ i call m, calls[i]? = some call → answers[i]? = some m → Answers i call m := by
  obtain ⟨e, ms, ran, length, each⟩ := run_serveAll ps n.flags effects 0 calls
  refine ⟨ms, ?_, length, fun i call m hc hm => by simpa using each i call m hc hm⟩
  simp only [run, action, h.tool, runTools_eq h]
  cases calls with
  | nil =>
    obtain rfl : ms = [] := by simpa using length
    rfl
  | cons call calls =>
    have some : ms.isEmpty = false := by cases ms <;> simp_all
    simp only [Action.run_bind ran, Action.run, answered, some]
    rfl

/-- A node that may use one kind of capabilities. -/
def toolbox : Node := { id := "tools", kind := .tool, flags := { mcp := true } }

/-- A conversation whose last message asks for tools. -/
def asking (calls : List Value) : State :=
  [("messages", .list [.ofFields [("role", .str "assistant"), ("tool_calls", .list calls)]])]

theorem toolbox_asked (calls : List Value) : toolbox.Asked (asking calls) calls := by
  refine ⟨rfl, _, _, .inl rfl, rfl, .key ?_⟩
  show (Value.ofFields [("role", .str "assistant"), ("tool_calls", .list calls)]).getD "tool_calls" = .list calls
  simp [getD_ofFields_cons]

/-- A tool that takes one argument at least. -/
def adder : Provider where
  mark := 0
  supports tool := tool == "add"
  answer _ call := if call.arguments.isEmpty then .error (.value "nothing to add") else .ok (.int call.arguments.length)

/-- Calls that are served, that fail, that no provider serves, and that have no name, with and without ids. -/
def mixedCalls : List Value :=
  [.ofFields [("id", .str "c1"), ("name", .str "add"), ("arguments", .ofFields [("a", .int 1)])],
   .ofFields [("function", .ofFields [("name", .str "add"), ("arguments", .str "\x7b\"a\": 2\x7d")])],
   .object "Call" [("id", .str "c3"), ("name", .str "add")],
   .ofFields [("id", .str "c4"), ("name", .str "sub"), ("args", .null)],
   .ofFields [("id", .str ""), ("name", .null)]]

/-- The ids of the calls, and the places of those that have none. -/
theorem calls_answered_in_order_mixed :
    (mixedCalls.zipIdx.map fun (call, i) => (due i call).text) = ["c1", "call_1", "c3", "c4", "call_4"] ∧
    toolbox.Asked (asking mixedCalls) mixedCalls ∧
    ∃ answers, (toolbox.run [(.mcp, adder)] (asking mixedCalls) default {}).2 =
        .ok (.update (toolbox.answered answers)) ∧ answers.length = 5 ∧
      ∀ i call m, mixedCalls[i]? = some call → answers[i]? = some m → Answers i call m :=
  ⟨by decide +kernel, toolbox_asked mixedCalls,
    calls_answered_in_order (toolbox_asked mixedCalls) [(.mcp, adder)] default {}⟩

/-- A call with an id of its own and without a name. -/
def namelessCall : Value := .ofFields [("id", .str "c1"), ("name", .str "")]

/-- A call that cannot be read is answered under its place, though its id can be read and stands in the message. -/
theorem nameless_call_loses_id :
    toolbox.Asked (asking [namelessCall]) [namelessCall] ∧ due 0 namelessCall = .str "c1" ∧
    (toolbox.run [] (asking [namelessCall]) default {}).2 = .ok (.update (toolbox.answered
      [.ofFields [("role", .str "tool"), ("tool_call_id", .str "call_0"), ("name", .str "unknown"),
        ("content", .str "Error: Tool call c1 has no name"), ("status", .str "error")]])) := by
  refine ⟨toolbox_asked _, rfl, rfl⟩

end Node

end Workflow
