import Workflow.Proofs.Written

/-! # What comes back unchanged

Writing a value as JSON and reading it again gives its normal form, which is kept from then on
(`Value.exact_of_normal`), so the values that come back unchanged are those that are their own normal forms
(`Value.exact_iff_of_normal`). What is read back of a checkpoint has the normal forms of its parts in their places
(`Checkpoint.normal_toValue`), so it is of the same thread and graph and counts as many steps (`Checkpoint.read_keeps`). -/

namespace Workflow

/-! ### Values -/

namespace Value

variable {u v w : Value} {es : List (Value × Value)}

theorem exact_insert (h : (mapping es).Exact) (hu : u.Exact) (s : String) :
    (mapping (insert (.str s) u es)).Exact := by
  cases h with
  | mapping keys distinct values =>
  rcases insert_cases (.str s) u es with ⟨before, k, old, after, rfl, -, put⟩ | ⟨put, differs⟩
  · rw [put]
    simp only [List.forall_mem_append, List.forall_mem_cons] at keys values
    refine .mapping ?_ ?_ ?_
    · simp only [List.forall_mem_append, List.forall_mem_cons]
      exact keys
    · simpa using distinct
    · simp only [List.forall_mem_append, List.forall_mem_cons]
      exact ⟨values.1, hu, values.2.2⟩
  · rw [put]
    refine .mapping ?_ ?_ ?_
    · simp only [List.forall_mem_append, List.forall_mem_singleton]
      exact ⟨keys, s, rfl⟩
    · rw [List.map_append, List.nodup_append]
      refine ⟨distinct, List.pairwise_singleton _ _, ?_⟩
      intro k hk k' hk' same
      obtain ⟨e, he, rfl⟩ := List.mem_map.mp hk
      have unequal := differs e he
      rw [same, List.mem_singleton.mp hk', equal_str, beq_self_eq_true] at unequal
      cases unequal
    · simp only [List.forall_mem_append, List.forall_mem_singleton]
      exact ⟨values, hu⟩

mutual

/-- A normal form comes back as it was written. -/
theorem exact_of_normal {v w : Value} (h : Json.normal v = .ok w) : w.Exact := by
  cases v with
  | null =>
    cases h
    exact .null
  | bool b =>
    cases h
    exact .bool b
  | int n =>
    cases h
    exact .int n
  | float x =>
    cases h
    exact .float x
  | str s =>
    cases h
    exact .str s
  | list xs | tuple xs =>
    obtain ⟨ys, hys, h⟩ := bind_eq_ok.mp h
    cases h
    exact .list (exact_of_normalAll hys)
  | mapping es =>
    obtain ⟨fs, hfs, h⟩ := bind_eq_ok.mp h
    cases h
    have empty : (mapping []).Exact := .mapping (fun _ he => nomatch he) List.nodup_nil fun _ he => nomatch he
    exact exact_of_normalEntries empty hfs
  | undefined | bytes | object | kind => cases h
termination_by structural v

theorem exact_of_normalAll {xs ys : List Value} (h : Json.normalAll xs = .ok ys) : ∀ y ∈ ys, y.Exact := by
  cases xs with
  | nil =>
    cases h
    exact fun _ hy => nomatch hy
  | cons x xs =>
    obtain ⟨y, hy, h⟩ := bind_eq_ok.mp h
    obtain ⟨ys, hys, h⟩ := bind_eq_ok.mp h
    cases h
    exact List.forall_mem_cons.mpr ⟨exact_of_normal hy, exact_of_normalAll hys⟩
termination_by structural xs

theorem exact_of_normalEntries {done es fs : List (Value × Value)} (hd : (mapping done).Exact)
    (h : Json.normalEntries done es = .ok fs) : (mapping fs).Exact := by
  cases es with
  | nil =>
    cases h
    exact hd
  | cons e es =>
    obtain ⟨k, u⟩ := e
    obtain ⟨s, -, h⟩ := bind_eq_ok.mp h
    obtain ⟨w, hw, h⟩ := bind_eq_ok.mp h
    -- A key that is written like an earlier one takes its place, so keys stay distinct.
    exact exact_of_normalEntries (exact_insert hd (exact_of_normal hw) s) h
termination_by structural es

end

/-- A value is kept exactly if it is its own normal form. -/
theorem exact_iff_of_normal (h : Json.normal v = .ok w) : v.Exact ↔ w = v := by
  constructor
  · intro exact
    rw [Json.normal_of_exact exact] at h
    exact (Except.ok.inj h).symm
  · rintro rfl
    exact exact_of_normal h

end Value

/-- Each value under a name is written by itself. -/
theorem Json.normal_ofFields {fs : Fields} (distinct : fs.names.Nodup) : normal (.ofFields fs) =
    Value.ofFields <$> fs.mapM fun (name, u) => Prod.mk name <$> normal u := by
  have entries : ((fs.map fun (k, v) => (Value.str k, v)).mapM fun e => (normal e.2).map fun w => (e.1, w)) =
      (List.map fun (k, v) => (Value.str k, v)) <$> fs.mapM fun (name, u) => Prod.mk name <$> normal u := by
    clear distinct
    induction fs with
    | nil => rfl
    | cons f fs ih =>
      rw [List.map_cons, List.mapM_cons, ih, List.mapM_cons]
      cases hu : normal f.2 with
      | error f => simp [hu]; rfl
      | ok w => simp [hu]; rfl
  have written := normalEntries_eq [] (Value.keys_ofFields fs) (Value.nodup_ofFields distinct)
  rw [Value.ofFields, normal, written, entries]
  cases fs.mapM fun (name, u) => Prod.mk name <$> normal u <;> rfl

/-! ### Checkpoints -/

/-- The request as it is read back. -/
def Interrupt.normal (i : Interrupt) : Except Fault Interrupt := do
  return { i with node := ← Json.normal i.node, prompt := ← Json.normal i.prompt }

namespace Checkpoint

variable {c d : Checkpoint}

/-- The checkpoint as it is read back. -/
def normal (c : Checkpoint) : Except Fault Checkpoint := do
  let version ← Json.normal c.version
  let id ← Json.normal c.id
  let thread ← Json.normal c.thread
  let graph ← Json.normal c.graph
  let node ← Json.normal c.node
  let state ← Json.normal c.state
  let interrupt ← c.interrupt.mapM Interrupt.normal
  let history ← Json.normalAll c.history
  let error ← Json.normal c.error
  let timestamp ← Json.normal c.timestamp
  let metadata ← Json.normal c.metadata
  return { c with version, id, thread, graph, node, state, interrupt, history, error, timestamp, metadata }

theorem normal_pending (pending : Option Interrupt) : Json.normal ((pending.map Interrupt.toValue).getD .null) =
    (fun i => (i.map Interrupt.toValue).getD .null) <$> pending.mapM Interrupt.normal := by
  cases pending with
  | none => rfl
  | some i =>
    rw [Option.map_some, Option.getD_some, Interrupt.toValue, Json.normal_ofFields]
    · simp only [List.mapM_cons, List.mapM_nil, Option.mapM_some, Interrupt.normal, map_bind, bind_map_left, bind_assoc,
        pure_bind, map_pure, Json.normal]
      rfl
    · show ["node_id", "prompt", "kind"].Nodup
      decide

theorem normal_toValue (c : Checkpoint) : Json.normal c.toValue = toValue <$> c.normal := by
  rw [toValue, Json.normal_ofFields c.nodup_toFields]
  -- Both sides read the parts one after another, and put them together at the end.
  simp only [toFields, List.mapM_cons, List.mapM_nil, normal, map_bind, bind_map_left, bind_assoc, pure_bind, map_pure,
    Json.normal, normal_pending]
  rfl

theorem normal_eq_ok (h : c.normal = .ok d) : Json.normal c.version = .ok d.version ∧
    Json.normal c.thread = .ok d.thread ∧ Json.normal c.state = .ok d.state ∧ d.step = c.step ∧
    Json.normal c.graph = .ok d.graph := by
  simp only [normal, bind_eq_ok] at h
  obtain ⟨_, version, _, -, _, thread, _, graph, _, -, _, state, _, -, _, -, _, -, _, -, _, -, h⟩ := h
  cases h
  exact ⟨version, thread, state, rfl, graph⟩

/-- What is told of a checkpoint by one that it is read back as: its thread and graph, and how many steps it counts. -/
structure ReadAs (c d : Checkpoint) : Prop where
  thread : ∀ {name : String}, c.thread = .str name → d.thread = .str name
  graph : ∀ {name : String}, c.graph = .str name → d.graph = .str name
  step : d.step = c.step

theorem eq_str_of_normal {v w : Value} {s : String} (written : Json.normal v = .ok w) (h : v = .str s) : w = .str s := by
  subst h
  cases written
  rfl

/-- Whatever its parts are, a checkpoint is read back as one of the same thread and graph, which counts as many steps. -/
theorem read_keeps {v : Value} (written : Json.normal c.toValue = .ok v) (read : ofValue v = .ok d) : c.ReadAs d := by
  rw [normal_toValue] at written
  cases hk : c.normal with
  | error f =>
    rw [hk] at written
    cases written
  | ok k =>
    rw [hk] at written
    cases written
    obtain rfl := eq_of_ofValue_toValue read
    obtain ⟨-, thread, -, step, graph⟩ := normal_eq_ok hk
    exact ⟨eq_str_of_normal thread, eq_str_of_normal graph, step⟩

theorem version_normal (version : c.version = checkpointVersion) (h : c.normal = .ok d) :
    d.version = checkpointVersion := by
  have written := (normal_eq_ok h).1
  rw [version] at written
  exact (Except.ok.inj written).symm

/-- Checkpoints of the current version are told apart by what is written of them. -/
theorem eq_of_toValue_eq (hc : c.version = checkpointVersion) (hd : d.version = checkpointVersion)
    (same : c.toValue = d.toValue) : c = d := by
  have read := ofValue_toValue hc
  rw [same, ofValue_toValue hd] at read
  exact (Except.ok.inj read).symm

/-- A checkpoint comes back as it was written exactly if all parts of it do. -/
theorem normal_eq_iff (version : c.version = checkpointVersion) (h : c.normal = .ok d) :
    d = c ↔ c.toValue.Exact := by
  have written : Json.normal c.toValue = .ok d.toValue := by rw [normal_toValue, h]; rfl
  rw [Value.exact_iff_of_normal written]
  constructor
  · rintro rfl
    rfl
  · exact eq_of_toValue_eq (version_normal version h) version

end Checkpoint

end Workflow
