import Workflow.Graph.Basic

/-! The way from one node to the next. A fixed target is taken as it is; what a condition selects has
    to be one of the targets that the edge declares. -/

namespace Workflow.Edge

def violation (e : Edge) (message : String) (target : Value := .null) (cause : Option String := none) :
    Failure :=
  { Failure.routing message (.str e.source) target (e.possible.map .str) with cause }

/-- The target that a condition's answer stands for: the one that it labels, or itself. -/
def translate (e : Edge) (answer : Value) : Option String :=
  match answer with
  | .str s => some (((e.pathMap.getD []).lookup s).getD s)
  | _ => none

/-- The target that the answer of a condition selects. -/
def select (e : Edge) (answer : Value) : Except Failure String :=
  match (e.translate answer).filter e.possible.contains with
  | some t => .ok t
  | none =>
    .error (e.violation (s!"Condition on edge from '{e.source}' selected {answer.literal}, " ++
      s!"which is not one of {Value.nameList e.possible}") answer)

/-- The target that the condition of an edge selects in a state. -/
def route (e : Edge) (state : State) : Except Failure String :=
  match e.condition with
  | none => .error (e.violation s!"Conditional edge from '{e.source}' has no condition")
  | some condition =>
    match condition state with
    | .error f =>
      .error (e.violation s!"Condition on edge from '{e.source}' raised {f.line}" .null (some f.name))
    | .ok answer => e.select answer

/-- The node after an edge. `none` for a fixed edge without a target. -/
def next? (e : Edge) (state : State) : Option (Except Failure String) :=
  match e.kind with
  | .normal => e.target.map .ok
  | .conditional => some (e.route state)

/-- Only declared targets are selected. -/
theorem mem_possible_of_select {e : Edge} {answer : Value} {t : String}
    (h : e.select answer = .ok t) : t ∈ e.possible := by
  unfold select at h
  split at h
  · next hf =>
    cases h
    obtain ⟨_, ht⟩ := Option.filter_eq_some_iff.1 hf
    simpa using ht
  · cases h

end Workflow.Edge
