import Workflow.Proofs.Kept
import Workflow.Store.Basic

/-! What durable stores keep. A value that JSON can hold is read back as it was written (`Json.normal_eq`), and a
    checkpoint of the current version is read back from its members (`Checkpoint.ofValue_toValue`). -/

namespace Workflow

/-- The value comes back as it was written: its mappings have distinct texts as keys, and it has no tuple and no part
    that JSON cannot hold. -/
inductive Value.Exact : Value → Prop
  | null : Exact .null
  | bool (b : Bool) : Exact (.bool b)
  | int (n : Int) : Exact (.int n)
  | float (x : Float) : Exact (.float x)
  | str (s : String) : Exact (.str s)
  | list {xs : List Value} (h : ∀ x ∈ xs, Exact x) : Exact (.list xs)
  | mapping {es : List (Value × Value)} (keys : ∀ e ∈ es, ∃ s, e.1 = .str s) (distinct : (es.map Prod.fst).Nodup)
      (values : ∀ e ∈ es, Exact e.2) : Exact (.mapping es)

/-- JSON can hold the value: a mapping has distinct texts as keys, and no float is NaN. -/
inductive Value.IsJson : Value → Prop
  | null : IsJson .null
  | bool (b : Bool) : IsJson (.bool b)
  | int (n : Int) : IsJson (.int n)
  | float {x : Float} (h : x.isNaN = false) : IsJson (.float x)
  | str (s : String) : IsJson (.str s)
  | list {xs : List Value} (h : ∀ x ∈ xs, IsJson x) : IsJson (.list xs)
  | mapping {es : List (Value × Value)} (keys : ∀ e ∈ es, ∃ s, e.1 = .str s) (distinct : (es.map Prod.fst).Nodup)
      (values : ∀ e ∈ es, IsJson e.2) : IsJson (.mapping es)

theorem Value.IsJson.exact {v : Value} (h : v.IsJson) : v.Exact := by
  induction h with
  | null => exact .null
  | bool b => exact .bool b
  | int n => exact .int n
  | float => exact .float _
  | str s => exact .str s
  | list _ ih => exact .list ih
  | mapping keys distinct _ ih => exact .mapping keys distinct ih

theorem Value.keys_ofFields (fs : Fields) : ∀ e ∈ fs.map fun (k, v) => (str k, v), ∃ s, e.1 = .str s := by
  intro e he
  obtain ⟨f, -, rfl⟩ := List.mem_map.mp he
  exact ⟨f.1, rfl⟩

theorem Value.nodup_ofFields {fs : Fields} (distinct : fs.names.Nodup) :
    ((fs.map fun (k, v) => (str k, v)).map Prod.fst).Nodup := by
  have keys : (fs.map fun (k, v) => (str k, v)).map Prod.fst = fs.names.map str := by
    simp [Fields.names, List.map_map, Function.comp_def]
  rw [keys]
  exact List.pairwise_map.mpr (distinct.imp fun hne h => hne (str.inj h))

theorem Value.isJson_ofFields {fs : Fields} (distinct : fs.names.Nodup) (values : ∀ f ∈ fs, f.2.IsJson) :
    (ofFields fs).IsJson := by
  refine .mapping (keys_ofFields fs) (nodup_ofFields distinct) ?_
  intro e he
  obtain ⟨f, hf, rfl⟩ := List.mem_map.mp he
  exact values f hf

/-- A value is put under a key that is there, or after the others under a key that equals none of theirs. -/
theorem Value.insert_cases (key u : Value) (es : List (Value × Value)) :
    (∃ before k old after, es = before ++ (k, old) :: after ∧ key.equal k = true ∧
      insert key u es = before ++ (k, u) :: after) ∨
    insert key u es = es ++ [(key, u)] ∧ ∀ e ∈ es, key.equal e.1 = false := by
  induction es with
  | nil => exact .inr ⟨rfl, fun _ he => nomatch he⟩
  | cons e es ih =>
    obtain ⟨k, old⟩ := e
    cases same : key.equal k with
    | true => exact .inl ⟨[], k, old, es, rfl, same, by rw [insert, if_pos same, List.nil_append]⟩
    | false =>
      have next : insert key u ((k, old) :: es) = (k, old) :: insert key u es := by
        rw [insert, same, if_neg Bool.false_ne_true]
      rcases ih with ⟨before, k', old', after, hes, same', put⟩ | ⟨put, differs⟩
      · exact .inl ⟨(k, old) :: before, k', old', after, congrArg _ hes, same', next.trans (congrArg _ put)⟩
      · refine .inr ⟨next.trans (congrArg _ put), ?_⟩
        rw [List.forall_mem_cons]
        exact ⟨same, differs⟩

namespace Json

variable {v w : Value} {s : String} {done es : List (Value × Value)} {xs : List Value}

/-- A text that is no key yet is put after the other keys. -/
theorem insert_new (keys : ∀ e ∈ done, ∃ t, e.1 = .str t) (new : ∀ e ∈ done, e.1 ≠ .str s) :
    Value.insert (.str s) w done = done ++ [(.str s, w)] := by
  rcases Value.insert_cases (.str s) w done with ⟨before, k, old, after, rfl, same, -⟩ | ⟨put, -⟩
  · have mem : (k, old) ∈ before ++ (k, old) :: after := List.mem_append_right _ List.mem_cons_self
    obtain ⟨t, rfl : k = .str t⟩ := keys _ mem
    rw [Value.equal_str, beq_iff_eq] at same
    exact absurd (congrArg Value.str same.symm) (new _ mem)
  · exact put

/-- Entries under distinct texts are written one by one, each under its own text. -/
theorem normalEntries_eq (done : List (Value × Value)) (keys : ∀ e ∈ done ++ es, ∃ s, e.1 = .str s)
    (distinct : ((done ++ es).map Prod.fst).Nodup) : normalEntries done es =
      (es.mapM fun e => (normal e.2).map fun w => (e.1, w)).map fun es => done ++ es := by
  induction es generalizing done with
  | nil => simp [normalEntries, Except.map, pure, Except.pure]
  | cons e es ih =>
    obtain ⟨k, v⟩ := e
    obtain ⟨s, rfl⟩ : ∃ s, k = .str s := keys (k, v) (List.mem_append_right _ List.mem_cons_self)
    rw [normalEntries, List.mapM_cons]
    cases hv : normal v with
    | error f => rfl
    | ok w =>
      have new : ∀ e ∈ done, e.1 ≠ .str s := by
        rw [List.map_append, List.nodup_append] at distinct
        exact fun e he => distinct.2.2 _ (List.mem_map_of_mem he) _ List.mem_cons_self
      have entry : Value.insert (.str s) w done = done ++ [(.str s, w)] :=
        insert_new (fun e he => keys e (List.mem_append_left _ he)) new
      have keys' : ∀ e ∈ (done ++ [(Value.str s, w)]) ++ es, ∃ s, e.1 = .str s := by
        intro e he
        rw [List.append_assoc, List.mem_append, List.singleton_append, List.mem_cons] at he
        rcases he with he | rfl | he
        · exact keys e (List.mem_append_left _ he)
        · exact ⟨s, rfl⟩
        · exact keys e (List.mem_append_right _ (List.mem_cons_of_mem _ he))
      have distinct' : (((done ++ [(Value.str s, w)]) ++ es).map Prod.fst).Nodup := by
        simpa using distinct
      have next := ih _ keys' distinct'
      show normalEntries (Value.insert (.str s) w done) es = _
      rw [entry, next]
      cases es.mapM fun e => (normal e.2).map fun w => (e.1, w) with
      | error f => rfl
      | ok es => simp [Except.map, bind, Except.bind, pure, Except.pure]

theorem normalAll_eq (h : ∀ x ∈ xs, normal x = .ok x) : normalAll xs = .ok xs := by
  induction xs with
  | nil => rfl
  | cons x xs ih =>
    rw [normalAll, h x List.mem_cons_self, ih fun y hy => h y (List.mem_cons_of_mem x hy)]
    rfl

theorem mapM_entries_eq (h : ∀ e ∈ es, normal e.2 = .ok e.2) :
    (es.mapM fun e => (normal e.2).map fun w => (e.1, w)) = .ok es := by
  induction es with
  | nil => rfl
  | cons e es ih =>
    rw [List.mapM_cons, h e List.mem_cons_self, ih fun e he => h e (List.mem_cons_of_mem _ he)]
    rfl

theorem normal_of_exact (h : v.Exact) : normal v = .ok v := by
  induction h with
  | null | bool | int | float | str => rfl
  | list _ ih =>
    rw [normal, normalAll_eq ih]
    rfl
  | @mapping es keys distinct _ ih =>
    have written := normalEntries_eq [] keys distinct
    rw [mapM_entries_eq ih] at written
    rw [normal, written]
    rfl

/-- What JSON can hold is read back as it was written. -/
theorem normal_eq (h : v.IsJson) : normal v = .ok v := normal_of_exact h.exact

end Json

/-! ### Reading a checkpoint back -/

theorem Value.item_mapping (es : List (Value × Value)) (name : String) :
    (mapping es).item (.str name) = match (mapping es).get? name with
      | some w => .ok w
      | none => .error (.key (.str name)) := rfl

theorem Value.item_ofFields {fs : Fields} {name : String} {w : Value} (h : fs.get? name = some w) :
    (ofFields fs).item (.str name) = .ok w := by
  have found := (get?_ofFields fs name).trans h
  rw [ofFields] at found ⊢
  rw [item_mapping, found]

theorem RunStatus.ofValue_name (s : RunStatus) : ofValue (.str s.name) = .ok s := by
  cases s <;> simp [ofValue, all, name]

theorem InterruptKind.ofValue_name (k : InterruptKind) : ofValue (.str k.name) = .ok k := by
  cases k <;> simp [ofValue, all, name]

theorem Interrupt.ofValue_toValue (i : Interrupt) : ofValue i.toValue = .ok i := by
  have kind : InterruptKind.ofValue ((i.toValue.get? "kind").getD (.str InterruptKind.dynamic.name)) = .ok i.kind :=
    i.kind.ofValue_name
  refine bind_eq_ok.mpr ⟨i.node, Value.item_ofFields rfl, ?_⟩
  refine bind_eq_ok.mpr ⟨i.kind, kind, ?_⟩
  rw [toValue, Value.getD_ofFields]
  rfl

namespace Checkpoint

variable {c d : Checkpoint} {v : Value}

theorem names_toFields (c : Checkpoint) : c.toFields.names =
    ["version", "checkpoint_id", "thread_id", "graph_name", "current_node", "state", "step", "status",
      "pending_interrupt", "node_history", "error", "timestamp", "metadata"] := rfl

theorem nodup_toFields (c : Checkpoint) : c.toFields.names.Nodup := by
  rw [names_toFields]
  decide

theorem ofMembers_toValue (version : Value) : ofMembers version c.toValue = .ok { c with version } := by
  have member : ∀ {name : String} {w : Value}, c.toFields.get? name = some w →
      c.toValue.item (.str name) = .ok w := Value.item_ofFields
  have optional : ∀ {name : String} {w : Value}, c.toFields.get? name = some w → c.toValue.get? name = some w :=
    fun h => (Value.get?_ofFields _ _).trans h
  have pending : c.toValue.getD "pending_interrupt" = (c.interrupt.map Interrupt.toValue).getD .null := by
    rw [Value.getD, optional rfl, Option.getD_some]
  have history : ((c.toValue.get? "node_history").getD (.list [])).items = .ok c.history := by
    rw [optional rfl, Option.getD_some]
    rfl
  have error : c.toValue.getD "error" = c.error := by rw [Value.getD, optional rfl, Option.getD_some]
  have metadata : (c.toValue.get? "metadata").getD (.mapping []) = c.metadata := by rw [optional rfl, Option.getD_some]
  refine bind_eq_ok.mpr ⟨_, member rfl, ?_⟩
  refine bind_eq_ok.mpr ⟨_, member rfl, ?_⟩
  refine bind_eq_ok.mpr ⟨_, member rfl, ?_⟩
  refine bind_eq_ok.mpr ⟨_, member rfl, ?_⟩
  refine bind_eq_ok.mpr ⟨_, member rfl, bind_eq_ok.mpr ⟨c.step, rfl, ?_⟩⟩
  refine bind_eq_ok.mpr ⟨_, member rfl, bind_eq_ok.mpr ⟨_, c.status.ofValue_name, ?_⟩⟩
  have last : ∀ interrupt : Option Interrupt, (do
      let history ← ((c.toValue.get? "node_history").getD (.list [])).items
      let id ← c.toValue.item (.str "checkpoint_id")
      let timestamp ← c.toValue.item (.str "timestamp")
      return { c with
               interrupt, history, error := c.toValue.getD "error", id, timestamp, version
               metadata := (c.toValue.get? "metadata").getD (.mapping []) }) =
      Except.ok (ε := Fault) { c with interrupt, version } := by
    intro interrupt
    rw [history, member rfl, member rfl, error, metadata]
    rfl
  show (if (c.toValue.getD "pending_interrupt").truthy then _ else _) = _
  rw [pending]
  have kept := last c.interrupt
  cases hi : c.interrupt with
  | none =>
    rw [hi] at kept
    exact kept
  | some i =>
    rw [hi] at kept
    exact bind_eq_ok.mpr ⟨some i, by rw [Option.map_some, Option.getD_some, i.ofValue_toValue]; rfl, kept⟩

/-- A checkpoint whose version counts as the current one is read back from its own members. -/
theorem ofValue_toValue_of_current (current : c.version.equal checkpointVersion = true) :
    ofValue c.toValue = .ok c := by
  have written : c.toValue.getD "version" = c.version := Value.getD_ofFields _ _
  show (if (c.toValue.getD "version").equal checkpointVersion then _ else _) = _
  rw [written, if_pos current, ofMembers_toValue]
  rfl

theorem ofValue_toValue (version : c.version = checkpointVersion) : ofValue c.toValue = .ok c :=
  ofValue_toValue_of_current (by rw [version]; rfl)

/-- Whatever its version, no other checkpoint is read from the members of one. -/
theorem eq_of_ofValue_toValue (h : ofValue c.toValue = .ok d) : d = c := by
  have written : c.toValue.getD "version" = c.version := Value.getD_ofFields _ _
  change (if (c.toValue.getD "version").equal checkpointVersion then _ else _) = _ at h
  split at h
  · rw [written, ofMembers_toValue] at h
    cases h
    rfl
  · cases h

end Checkpoint

end Workflow
