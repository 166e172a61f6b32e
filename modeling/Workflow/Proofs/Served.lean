import Mathlib.Data.List.ReduceOption
import Workflow.Proofs.ToolAnswers

/-! Tool nodes: what becomes of each call. A tool node neither fails nor suspends, whatever its calls are: a call that
    cannot be read, that nothing serves or that its provider fails is told of in its message. Every call that can be
    read is sent once, to the provider of the first kind that serves its tool, or not at all if there is none
    (`tool_failures_become_messages`). A text that writes too long a number cannot be read (`long_number_unsent`). -/

namespace Workflow

/-! ### Who serves a tool -/

namespace Providers

variable {ps : Providers} {flags : CapabilityFlags} {tool : String} {kind : CapabilityKind} {p q : Provider}

/-- The kind is allowed, and its provider serves the tool. -/
structure Serves (ps : Providers) (flags : CapabilityFlags) (tool : String) (kind : CapabilityKind) (p : Provider) :
    Prop where
  allowed : flags.allows kind = true
  registered : ps.get? kind = some p
  supported : p.supports tool = true

/-- The kind is the first one that serves the tool. -/
def Chosen (ps : Providers) (flags : CapabilityFlags) (tool : String) (kind : CapabilityKind) (p : Provider) : Prop :=
  ∃ before after, CapabilityKind.toolOrder = before ++ kind :: after ∧ ps.Serves flags tool kind p ∧
    ∀ k ∈ before, ∀ q, ¬ps.Serves flags tool k q

/-- No kind serves the tool. -/
def Unserved (ps : Providers) (flags : CapabilityFlags) (tool : String) : Prop :=
  ∀ k ∈ CapabilityKind.toolOrder, ∀ q, ¬ps.Serves flags tool k q

theorem exists_serves_iff :
    (∃ p, ps.Serves flags tool kind p) ↔
      (flags.allows kind && ((ps.get? kind).map fun p => p.supports tool).getD false) = true := by
  constructor
  · rintro ⟨p, allowed, registered, supported⟩
    simp [allowed, registered, supported]
  · intro h
    cases found : ps.get? kind with
    | none => simp [found] at h
    | some p => exact ⟨p, by simp_all, found, by simp_all⟩

theorem resolve_eq_find? :
    ps.resolve flags tool = CapabilityKind.toolOrder.find? fun k =>
      flags.allows k && ((ps.get? k).map fun p => p.supports tool).getD false := by
  simp [resolve, CapabilityFlags.toolKinds, List.find?_filter]

theorem chosen_of_resolve (h : ps.resolve flags tool = some kind) : ∃ p, ps.Chosen flags tool kind p := by
  rw [resolve_eq_find?, List.find?_eq_some_iff_append] at h
  obtain ⟨serves, before, after, order, none⟩ := h
  obtain ⟨p, serves⟩ := exists_serves_iff.mpr serves
  refine ⟨p, before, after, order, serves, fun k mem q serves => ?_⟩
  simpa [exists_serves_iff.mp ⟨q, serves⟩] using none k mem

theorem unserved_of_resolve (h : ps.resolve flags tool = none) : ps.Unserved flags tool := by
  rw [resolve_eq_find?, List.find?_eq_none] at h
  exact fun k mem q serves => h k mem (exists_serves_iff.mp ⟨q, serves⟩)

end Providers

/-! ### Numbers of too many digits -/

namespace Json

/-- The characters of a JSON object with one member, a whole number of `n + 1` digits. -/
def ones (n : Nat) : List Char :=
  '\x7b' :: '"' :: 'n' :: '"' :: ':' :: ' ' :: '1' :: (List.replicate n '1' ++ ['\x7d'])

variable {n offset : Nat}

theorem readNumber_ones (long : Number.digitLimit < n + 1) :
    readNumber ⟨offset, '1' :: (List.replicate n '1' ++ ['\x7d'])⟩ = .error (.tooLong (n + 1)) := by
  have one : isDigit '1' = true := rfl
  have run : (List.replicate n '1' ++ ['\x7d']).takeWhile isDigit = List.replicate n '1' := by
    rw [List.takeWhile_append_of_pos (by simp [isDigit])]
    simp [isDigit]
  simp [readNumber, one, run, long]

theorem readValue_ones (fuel : Nat) (long : Number.digitLimit < n + 1) :
    readValue (2 * (fuel + 1)) ⟨offset, '1' :: (List.replicate n '1' ++ ['\x7d'])⟩ = .error (.tooLong (n + 1)) := by
  rw [← readNumber_ones long]
  rfl

theorem read?_ones (long : Number.digitLimit < n + 1) : read? (ones n) = .error (.tooLong (n + 1)) := by
  simp [ones, read?, Rest.skipSpace, Rest.isSpace, Rest.advance, readValue, readEntries, readText, bind, Except.bind,
    readValue_ones _ long]

theorem read_ones (long : Number.digitLimit < n + 1) :
    read (String.ofList (ones n)) = .error (.value (Number.tooManyDigits (n + 1))) := by
  unfold read
  rw [String.toList_ofList, read?_ones long]
  rfl

theorem strip_ones (n : Nat) : Text.strip (String.ofList (ones n)) = String.ofList (ones n) := by
  have left : Text.isBlank '\x7b' = false := rfl
  have right : Text.isBlank '\x7d' = false := rfl
  simp [Text.strip, Text.stripChars, Text.trim, ones, left, right]

end Json

namespace ToolCall

open Providers

/-! ### What calls want, and what becomes of them -/

/-- The arguments that a value gives: those of a mapping or of the JSON text of one, or none if nothing is there. -/
inductive Gives : Value → List (Value × Value) → Prop
  | mapping (es : List (Value × Value)) : Gives (.mapping es) es
  | absent : Gives .null []
  | blank {s : String} (h : (Text.strip s).isEmpty = true) : Gives (.str s) []
  | text {s : String} {es : List (Value × Value)} (h : (Text.strip s).isEmpty = false)
    (read : Json.read s = .ok (.mapping es)) : Gives (.str s) es
  | textNull {s : String} (h : (Text.strip s).isEmpty = false) (read : Json.read s = .ok .null) : Gives (.str s) []

/-- The call can be read: it names a tool, and gives it arguments. -/
structure Wants (call : Value) (tool : String) (es : List (Value × Value)) : Prop where
  named : (written (source call)).1.truthy = true
  tool : (written (source call)).1.text = tool
  given : Gives (written (source call)).2 es

/-- What becomes of a call, given the calls that were served before: the call of a provider that it makes, if any,
    and the value that it comes to, if any. -/
inductive Fate (ps : Providers) (flags : CapabilityFlags) (log : CallLog) (call : Value) :
    Option (Nat × Call) → Option Value → Prop
  | unread (h : ∀ tool es, ¬Wants call tool es) : Fate ps flags log call none none
  | unserved {tool es} (wants : Wants call tool es) (h : ps.Unserved flags tool) : Fate ps flags log call none none
  | failed {tool es kind p} {f : Fault} (wants : Wants call tool es) (chosen : ps.Chosen flags tool kind p)
    (h : p.answer (log.of p.mark) ⟨tool, es⟩ = .error f) : Fate ps flags log call (some (p.mark, ⟨tool, es⟩)) none
  | served {tool es kind p} {v : Value} (wants : Wants call tool es) (chosen : ps.Chosen flags tool kind p)
    (h : p.answer (log.of p.mark) ⟨tool, es⟩ = .ok v) : Fate ps flags log call (some (p.mark, ⟨tool, es⟩)) (some v)

variable {ps : Providers} {flags : CapabilityFlags} {call m : Value} {calls : List Value} {tool : String}
  {es : List (Value × Value)}

/-- A value that gives arguments is read as the mapping of them, or as nothing. -/
theorem Gives.read {v : Value} (h : Gives v es) :
    readArguments v = .ok (.mapping es) ∨ readArguments v = .ok .null ∧ es = [] := by
  cases h with
  | mapping => exact .inl rfl
  | absent => exact .inr ⟨rfl, rfl⟩
  | blank h => exact .inl (by simp [readArguments, h])
  | text h read => exact .inl (by simp [readArguments, h, read])
  | textNull h read => exact .inr ⟨by simp [readArguments, h, read], rfl⟩

theorem gives_of_read_mapping {v : Value} (h : readArguments v = .ok (.mapping es)) : Gives v es := by
  cases v with
  | mapping => cases h; exact .mapping es
  | str s =>
    cases blank : (Text.strip s).isEmpty with
    | true =>
      obtain rfl : es = [] := by simpa [readArguments, blank, eq_comm] using h
      exact .blank blank
    | false => exact .text blank (by simpa [readArguments, blank] using h)
  | _ => cases h

theorem gives_of_read_null {v : Value} (h : readArguments v = .ok .null) : Gives v [] := by
  cases v with
  | null => exact .absent
  | str s =>
    cases blank : (Text.strip s).isEmpty with
    | true => simp [readArguments, blank] at h
    | false => exact .textNull blank (by simpa [readArguments, blank] using h)
  | _ => cases h

theorem Wants.parse (h : Wants call tool es) (index : Nat) :
    ToolCall.parse index call = .ok ⟨due index call, tool, es⟩ := by
  obtain ⟨named, rfl, given⟩ := h
  obtain read | ⟨read, rfl⟩ := given.read <;>
    simp [ToolCall.parse, named, read, getD_source, due, bind, Except.bind, pure, Except.pure]

theorem wants_of_legible (h : Legible call) : ∃ tool es, Wants call tool es := by
  obtain ⟨named, v, read, rfl | ⟨es, rfl⟩⟩ := h
  · exact ⟨_, _, named, rfl, gives_of_read_null read⟩
  · exact ⟨_, _, named, rfl, gives_of_read_mapping read⟩

theorem Wants.legible (h : Wants call tool es) : Legible call := legible_of_parse (h.parse 0)

/-! ### What the messages tell -/

/-- The message tells of an error. -/
structure Complains (m : Value) : Prop where
  status : m.getD "status" = .str "error"
  content : ∃ message, m.getD "content" = .str ("Error: " ++ message)

/-- The message tells what the call came to. -/
structure Tells (r : Option Value) (m : Value) : Prop where
  complains : Complains m ↔ r = none
  content : ∀ v, r = some v → m.getD "content" = v

theorem tells_complaint (id : Value) (name message : String) : Tells none (complaint id name message) := by
  refine ⟨⟨fun _ => rfl, fun _ => ⟨?_, message, ?_⟩⟩, by simp⟩ <;> simp [complaint, getD_ofFields_cons]
  rfl

theorem tells_answer (id : Value) (name : String) (v : Value) : Tells (some v) (answer id name v) := by
  refine ⟨⟨fun h => ?_, by simp⟩, fun w same => ?_⟩
  · have none : (Value.ofFields []).getD "status" = .null := rfl
    simpa [answer, getD_ofFields_cons, none] using h.status
  · obtain rfl : v = w := by simpa using same
    simp [answer, getD_ofFields_cons]

/-- What a request comes to is told, and a failure is told of, whatever it is. -/
theorem tells_resultMessage (c : ToolCall) (result : CallResult) :
    Tells result.outcome.toOption (resultMessage c result) := by
  obtain ⟨kind, name, f | v, callId⟩ := result
  · exact tells_complaint _ _ _
  · exact tells_answer _ _ _

theorem toOption_outcome (kind : CapabilityKind) (name : String) (r : Except Fault Value) :
    (Providers.outcome kind name r).toOption = r.toOption := by
  cases r with
  | ok v => rfl
  | error f =>
    cases f with
    | failure f =>
      simp only [Providers.outcome]
      split <;> rfl
    | _ => rfl

/-- A call of a tool makes one request of the first kind that serves it, or none. -/
theorem fate_callTool (wants : Wants call tool es) (id : Value) (e : Action.Effects) :
    ∃ o result asked, Fate ps flags e.calls call o result.outcome.toOption ∧
      (Action.callTool tool (.mapping es) id).run ps flags e =
        ({ e with calls := e.calls ++ o.toList, asked }, .ok result) := by
  simp only [Action.callTool, Action.run]
  cases resolved : ps.resolve flags tool with
  | none =>
    exact ⟨none, unserved tool id, e.asked ++ ps.sought tool flags.toolKinds,
      .unserved wants (unserved_of_resolve resolved), by simp [Action.run]⟩
  | some kind =>
    obtain ⟨p, chosen⟩ := chosen_of_resolve resolved
    have serves : ps.Serves flags tool kind p := by
      obtain ⟨-, -, -, serves, -⟩ := chosen
      exact serves
    refine ⟨some (p.mark, ⟨tool, es⟩), ⟨kind, tool, outcome kind tool (p.answer (e.calls.of p.mark) ⟨tool, es⟩), id⟩,
      e.asked ++ ps.sought tool flags.toolKinds ++ [kind], ?_, ?_⟩
    · simp only [toOption_outcome]
      cases answered : p.answer (e.calls.of p.mark) ⟨tool, es⟩ with
      | ok v => exact .served wants chosen answered
      | error f => exact .failed wants chosen answered
    · simp [Action.invoke, argumentsOf_mapping, Action.run, lookedUp, dispatch, serves.allowed,
        serves.registered]

/-- What becomes of a call is told in one message. -/
theorem fate_serve (ps : Providers) (flags : CapabilityFlags) (index : Nat) (call : Value) (e : Action.Effects) :
    ∃ o r m asked, Fate ps flags e.calls call o r ∧ Tells r m ∧ Answers index call m ∧
      (serve index call).run ps flags e = ({ e with calls := e.calls ++ o.toList, asked }, .ok m) := by
  by_cases legible : Legible call
  · obtain ⟨tool, es, wants⟩ := wants_of_legible legible
    obtain ⟨o, result, asked, fate, ran⟩ := fate_callTool wants (due index call) e
    have told : (serve index call).run ps flags e = ({ e with calls := e.calls ++ o.toList, asked },
        .ok (resultMessage ⟨due index call, tool, es⟩ result)) := by
      simp only [serve, wants.parse]
      rw [Action.run_bind ran]
      rfl
    have answers := @answers_resultMessage index call legible es result
    rw [wants.tool] at answers
    exact ⟨o, _, _, asked, fate, tells_resultMessage _ _, answers, told⟩
  · cases parsed : parse index call with
    | ok c => exact absurd (legible_of_parse parsed) legible
    | error f =>
      refine ⟨none, none, _, e.asked, .unread fun tool es wants => legible wants.legible,
        tells_complaint _ _ f.message, answers_complaint legible f.message, ?_⟩
      simp [serve, parsed, Action.run]

/-- One call after another: each meets the log that those before it have left. -/
theorem fate_serveAll (ps : Providers) (flags : CapabilityFlags) (index : Nat) (calls : List Value)
    (e : Action.Effects) :
    ∃ (sent : List (Option (Nat × Call))) (ms : List Value) (asked : List CapabilityKind),
      sent.length = calls.length ∧ ms.length = calls.length ∧
      (serveAll index calls).run ps flags e = ({ e with calls := e.calls ++ sent.reduceOption, asked }, .ok ms) ∧
      ∀ i call o m, calls[i]? = some call → sent[i]? = some o → ms[i]? = some m →
        ∃ r, Fate ps flags (e.calls ++ (sent.take i).reduceOption) call o r ∧ Tells r m ∧
          Answers (index + i) call m := by
  induction calls generalizing index e with
  | nil => exact ⟨[], [], e.asked, rfl, rfl, by simp [serveAll, Action.run], by simp⟩
  | cons call calls ih =>
    obtain ⟨o, r, m, asked, fate, tells, answers, ran⟩ := fate_serve ps flags index call e
    obtain ⟨sent, ms, asked', sentLength, length, rest, each⟩ :=
      ih (index + 1) { e with calls := e.calls ++ o.toList, asked }
    have split (sent : List (Option (Nat × Call))) : (o :: sent).reduceOption = o.toList ++ sent.reduceOption := by
      cases o <;> simp
    refine ⟨o :: sent, m :: ms, asked', by simp [sentLength], by simp [length], ?_, ?_⟩
    · rw [serveAll, Action.run_bind ran, Action.run_bind rest, split, ← List.append_assoc]
      rfl
    · rintro (_ | i) call' o' m' hc ho hm
      · obtain rfl : call = call' := by simpa using hc
        obtain rfl : o = o' := by simpa using ho
        obtain rfl : m = m' := by simpa using hm
        exact ⟨r, by simpa using fate, tells, answers⟩
      · obtain ⟨r', fate', tells', answers'⟩ :=
          each i call' o' m' (by simpa using hc) (by simpa using ho) (by simpa using hm)
        refine ⟨r', ?_, tells', by rwa [Nat.add_right_comm] at answers'⟩
        rwa [List.take_succ_cons, split, ← List.append_assoc]

/-! ### What messages ask for -/

/-- What a message has under `tool_calls`, as a key or as a field; `null` without it. -/
def requested : Value → Value
  | .mapping es => (Value.mapping es).getD "tool_calls"
  | .object _ fs => Fields.getD fs "tool_calls"
  | _ => .null

/-- The calls that a message asks for: those of a list or a tuple, or none if it has nothing of that kind. -/
inductive Asks (message : Value) : List Value → Prop
  | list {calls : List Value} (h : requested message = .list calls) : Asks message calls
  | tuple {calls : List Value} (h : requested message = .tuple calls) : Asks message calls
  | nothing (h : (requested message).truthy = false) : Asks message []

theorem pending_eq_requested (m : Value) :
    pending m = if (requested m).truthy then (requested m).items else .ok [] := by
  cases m <;> rfl

theorem pending_of_asks (h : Asks m calls) : pending m = .ok calls := by
  rw [pending_eq_requested]
  cases h with
  | list h => cases calls <;> simp [h, Value.truthy, Value.items, Value.items?]
  | tuple h => cases calls <;> simp [h, Value.truthy, Value.items, Value.items?]
  | nothing h => simp [h]

end ToolCall

/-! ### Tool nodes -/

namespace Node

open ToolCall

variable {n : Node} {state : State} {calls : List Value}

/-- The last message in the state of a tool node asks for the calls. -/
structure Summoned (n : Node) (state : State) (calls : List Value) : Prop where
  tool : n.kind = .tool
  asks : ∃ messages message,
    (state.getD n.messagesKey = .list messages ∨ state.getD n.messagesKey = .tuple messages) ∧
    messages.getLast? = some message ∧ Asks message calls

theorem runTools_of_summoned (h : n.Summoned state calls) : n.runTools state =
    match calls with
    | [] => .done (.update (.mapping []))
    | calls => (serveAll 0 calls).bind fun ms => .done (.update (.ofFields [(n.messagesKey, .list ms)])) := by
  obtain ⟨-, messages, message, given, last, asks⟩ := h
  have read : n.messages state = .ok messages := by
    rcases given with given | given <;> simp [Node.messages, given]
  simp only [runTools, read, last, bind, Except.bind, pending_of_asks asks]
  cases calls <;> rfl

theorem toolbox_summoned (calls : List Value) : toolbox.Summoned (asking calls) calls := by
  refine ⟨rfl, _, _, .inl rfl, rfl, .list ?_⟩
  show (Value.ofFields [("role", .str "assistant"), ("tool_calls", .list calls)]).getD "tool_calls" = .list calls
  simp [getD_ofFields_cons]

/-- A call whose arguments are the JSON text of an object with a number of `n + 1` digits. -/
def countingCall (n : Nat) : Value :=
  .ofFields [("id", .str "c1"), ("name", .str "add"), ("arguments", .str (String.ofList (Json.ones n)))]

theorem parse_countingCall {n : Nat} (long : Number.digitLimit < n + 1) :
    parse 0 (countingCall n) = .error (.value (Number.tooManyDigits (n + 1))) := by
  have given : written (source (countingCall n)) = (.str "add", .str (String.ofList (Json.ones n))) := rfl
  have read : readArguments (.str (String.ofList (Json.ones n))) = .error (.value (Number.tooManyDigits (n + 1))) := by
    rw [readArguments, Json.strip_ones, Json.read_ones long]
    simp [Json.ones]
  have named : (Value.str "add").truthy = true := rfl
  simp only [parse, given, read, named, bind, Except.bind]
  rfl

theorem run_countingCall {n : Nat} (long : Number.digitLimit < n + 1) (ps : Providers) (context : NodeContext) :
    toolbox.run ps (asking [countingCall n]) context {} = ({}, .ok (.update (toolbox.answered
      [complaint (.str (placeMark 0)) "unknown" (Number.tooManyDigits (n + 1))]))) := by
  have kind : toolbox.kind = .tool := rfl
  simp only [run, action, kind, runTools_of_summoned (toolbox_summoned _), serveAll, serve, parse_countingCall long]
  rfl

end Node

end Workflow
