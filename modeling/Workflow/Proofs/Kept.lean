import Workflow.Proofs.Requests

/-! The settings that are kept with a run. What a configuration writes down of itself brings its bound, its
    pauses and its mode back, so a run goes on as it was started (`Config.override_kept`). -/

namespace Workflow

/-! ### Reading what was written -/

theorem Value.get?_ofFields (fs : Fields) (name : String) : (ofFields fs).get? name = fs.get? name := by
  simp only [ofFields, get?, find?, Fields.get?]
  induction fs with
  | nil => rfl
  | cons f fs ih =>
    obtain ⟨k, v⟩ := f
    rw [List.map_cons, List.find?_cons, List.lookup_cons, equal_str]
    cases hk : name == k with
    | true => rfl
    | false => exact ih

theorem Value.getD_ofFields (fs : Fields) (name : String) : (ofFields fs).getD name = fs.getD name := by
  rw [getD, get?_ofFields, Fields.getD]

theorem CheckpointMode.ofValue_name (m : CheckpointMode) : ofValue (.str m.name) = .ok m := by
  cases m <;> simp [ofValue, all, name]

theorem Value.forM_checkKey_names (names : List String) : (names.map Value.str).forM checkKey = .ok () := by
  induction names with
  | nil => rfl
  | cons n names ih =>
    rw [List.map_cons]
    exact ih

namespace Config

variable {c base : Config} {o : Overrides}

theorem listed_names (names : List String) : listed (.list (names.map .str)) = .ok (names.map .str) := by
  cases names <;> rfl

theorem namesOf_list (names : List String) : namesOf (.list (names.map .str)) = .ok (nameSet names) := by
  have texts : (names.map Value.str).filterMap Value.str? = names := by
    rw [List.filterMap_map]
    exact List.filterMap_some
  have checked : ((names.map Value.str).forM Value.checkKey >>= fun _ =>
      .ok (nameSet ((names.map Value.str).filterMap Value.str?))) = Except.ok (ε := Fault) (nameSet names) := by
    rw [Value.forM_checkKey_names, texts]
    rfl
  rw [namesOf, listed_names]
  exact checked

theorem limitOf_int {n : Int} (h : 0 < n) : limitOf (.int n) = .ok n := if_pos h

/-- The overrides that a configuration is kept as. -/
def kept (c : Config) : Overrides where
  recursionLimit := .int c.recursionLimit
  before := .list (c.before.map .str)
  after := .list (c.after.map .str)
  mode := .str c.mode.name

theorem ofMetadata_metadata (c : Config) : Overrides.ofMetadata c.metadata = .ok c.kept := by
  have isMapping : Overrides.ofMetadata c.metadata = .ok
      { recursionLimit := c.metadata.getD "recursion_limit", before := c.metadata.getD "interrupt_before"
        after := c.metadata.getD "interrupt_after", mode := c.metadata.getD "checkpoint_mode" } := rfl
  rw [isMapping]
  simp only [metadata, Value.getD_ofFields]
  rfl

theorem unordered?_names (names : List String) : Overrides.unordered? (names.map .str) = none := by
  have ordered (n m : String) : ((Value.str n).atLeast (.str m)).isOk = true := rfl
  induction names with
  | nil => rfl
  | cons n names ih =>
    have none : (names.map Value.str).find? (fun w => !(Value.str n).equal w && !(w.atLeast (.str n)).isOk) = none := by
      simp [ordered]
    rw [List.map_cons, Overrides.unordered?, none]
    exact ih

theorem checkOrder_names (names : List String) : Overrides.checkOrder (.list (names.map .str)) = .ok () := by
  simp only [Overrides.checkOrder, listed_names, bind, Except.bind, unordered?_names]
  rfl

/-- What is kept of a configuration can be put in order, so that what a call lists itself decides. -/
theorem checkNames_onto_kept (o : Overrides) (c : Config) : (o.onto c.kept).checkNames = o.checkNames := by
  have choose (v : Value) (names : List String) :
      Overrides.checkOrder (if v.isNull then .list (names.map .str) else v) = Overrides.checkOrder v := by
    split
    · rename_i null
      obtain rfl : v = .null := by cases v <;> cases null; rfl
      exact checkOrder_names names
    · rfl
  simp only [Overrides.checkNames, Overrides.onto, kept, choose]

/-- What a call may set: overrides that are well formed, with names that can be put in order. -/
structure Accepts (base : Config) (o : Overrides) (c : Config) : Prop where
  override : base.override o = .ok c
  names : o.checkNames = .ok ()

theorem mem_nameSet {names : List String} {n : String} : n ∈ nameSet names ↔ n ∈ names := by
  rw [nameSet, List.mem_mergeSort, List.mem_eraseDups]

/-- A configuration with what is kept of another one. -/
def keeping (base c : Config) : Config :=
  { base with
    recursionLimit := c.recursionLimit, before := nameSet c.before, after := nameSet c.after, mode := c.mode }

/-- What is kept of a configuration brings it back. -/
theorem override_kept (base : Config) (h : 0 < c.recursionLimit) :
    base.override c.kept = .ok (base.keeping c) := by
  have mode : CheckpointMode.ofValue c.kept.mode = .ok c.mode := c.mode.ofValue_name
  have limit : limitOf c.kept.recursionLimit = .ok c.recursionLimit := limitOf_int h
  have before : namesOf c.kept.before = .ok (nameSet c.before) := namesOf_list c.before
  have after : namesOf c.kept.after = .ok (nameSet c.after) := namesOf_list c.after
  have given : ∀ {α : Type} (a : α) (read : Value → Except Fault α) (v : Value), v.isNull = false →
      choose a read v = read v := fun a read v hv => if_neg (ne_true_of_eq_false hv)
  rw [override, given _ _ _ rfl, given _ _ _ rfl, given _ _ _ rfl, given _ _ _ rfl, limit, before, after, mode]
  rfl

section Choosing
variable {α : Type} {a x : α} {read : Value → Except Fault α} {v : Value} {f : Fault}

theorem choose_error (h : choose a read v = .error f) (b : α) : choose b read v = .error f := by
  unfold choose at h ⊢
  split at h
  · cases h
  · rename_i hv
    rw [if_neg hv, h]

theorem choose_ok (h : choose a read v = .ok x) (b : α) : ∃ y, choose b read v = .ok y := by
  unfold choose at h ⊢
  split at h
  · rename_i hv
    exact ⟨b, if_pos hv⟩
  · rename_i hv
    exact ⟨x, by rw [if_neg hv, h]⟩

/-- Whether overrides are refused, and for what, does not depend on what is in force. -/
theorem override_error (h : base.override o = .error f) (c : Config) : c.override o = .error f := by
  simp only [override, bind_eq_error] at h ⊢
  rcases h with h | ⟨_, h₁, h | ⟨_, h₂, h | ⟨_, h₃, h | ⟨_, _, h⟩⟩⟩⟩
  · exact Or.inl (choose_error h _)
  · obtain ⟨limit, h₁⟩ := choose_ok h₁ c.recursionLimit
    exact Or.inr ⟨limit, h₁, Or.inl (choose_error h _)⟩
  · obtain ⟨limit, h₁⟩ := choose_ok h₁ c.recursionLimit
    obtain ⟨before, h₂⟩ := choose_ok h₂ c.before
    exact Or.inr ⟨limit, h₁, Or.inr ⟨before, h₂, Or.inl (choose_error h _)⟩⟩
  · obtain ⟨limit, h₁⟩ := choose_ok h₁ c.recursionLimit
    obtain ⟨before, h₂⟩ := choose_ok h₂ c.before
    obtain ⟨after, h₃⟩ := choose_ok h₃ c.after
    exact Or.inr ⟨limit, h₁, Or.inr ⟨before, h₂, Or.inr ⟨after, h₃, Or.inl (choose_error h _)⟩⟩⟩
  · cases h

end Choosing

theorem override_nothing (c : Config) : c.override {} = .ok c := rfl

end Config

/-- A thread that is told to wait goes on where it paused, with what was kept of its settings. -/
theorem Engine.resumption_of_paused {g : Engine} {s : Store} {thread node : String} {p : Position} {c : Config}
    {kind : InterruptKind} {prompt id timestamp : Value} (pos : 0 < c.recursionLimit)
    (load : s.load thread = .ok (some (((p.running thread c.metadata).paused node kind prompt).checkpoint
      g.definition.name id timestamp))) :
    g.resumption thread {} s =
      .ok ⟨g.config.keeping c, p.running thread (g.config.keeping c).metadata, ⟨.str node, prompt, kind⟩⟩ := by
  have last := lastCheckpoint_eq_ok_iff.mpr ⟨load, by rw [Execution.checkpoint, Value.equal_str, beq_self_eq_true]⟩
  have taken : Execution.ofCheckpoint (((p.running thread c.metadata).paused node kind prompt).checkpoint
      g.definition.name id timestamp) = .ok ((p.running thread c.metadata).paused node kind prompt) :=
    Execution.ofCheckpoint_checkpoint _ _ _ rfl
  have stored : Overrides.ofMetadata ((p.running thread c.metadata).paused node kind prompt).metadata = .ok c.kept :=
    c.ofMetadata_metadata
  refine bind_eq_ok.mpr ⟨_, last, bind_eq_ok.mpr ⟨_, taken, bind_eq_ok.mpr ⟨_, stored, ?_⟩⟩⟩
  exact bind_eq_ok.mpr ⟨_, Config.override_kept g.config pos, bind_eq_ok.mpr ⟨_, Config.override_nothing _,
    bind_eq_ok.mpr ⟨_, Config.checkNames_onto_kept _ _, rfl⟩⟩⟩

end Workflow
