import Workflow.Proofs.Answers
import Workflow.Proofs.Exact

/-! # Durable checkpoints

What a store that outlives the process tells of a thread after a save, however it was used before (`Used`). It refuses
the checkpoint, or takes it and tells of its normal form, which is the checkpoint itself exactly if JSON keeps all of
its parts (`exact_or_refused`). Not all that comes back changed is refused: a tuple comes back as a list
(`point_altered`). -/

namespace Workflow

theorem Value.fields_eq_iff {fs : Fields} {w : Value} (h : Json.normal (ofFields fs) = .ok w) :
    w.fields = fs ↔ (ofFields fs).Exact := by
  rw [exact_iff_of_normal h]
  constructor
  · rintro rfl
    have exact := exact_of_normal h
    obtain ⟨es, -, written⟩ := bind_eq_ok.mp h
    cases written
    -- The keys of what comes back are texts, so each entry is a field.
    cases exact with
    | mapping keys _ _ =>
      rw [ofFields, fields, List.map_map]
      refine (congrArg Value.mapping ((List.map_congr_left fun e he => ?_).trans (List.map_id es))).symm
      obtain ⟨k, u⟩ := e
      obtain ⟨s, rfl : k = str s⟩ := keys _ he
      rfl
  · rintro rfl
    exact fields_ofFields fs

/-- A resumption goes on with the state of the last checkpoint. -/
theorem Engine.state_of_resumption {g : Engine} {thread : String} {overrides : Overrides} {store : Store}
    {r : Resumption} {d : Checkpoint} (last : store.load thread = .ok (some d))
    (h : g.resumption thread overrides store = .ok r) : r.execution.state = d.state.fields := by
  obtain ⟨c, _, _, e, hc, -, -, he, -, -, -, hr⟩ := taken_of_resumption h
  have told := (lastCheckpoint_eq_ok_iff.mp hc).1
  rw [last] at told
  cases told
  rw [hr]
  exact congrArg Position.state (position_ofCheckpoint he)

namespace Store

/-- Stores that outlive the process, in whatever state their use has brought them: operations, sweeps of old rows, and
    texts put in place of the last checkpoint of a thread. -/
inductive Used : Store → Prop
  | new {s : Store} (durable : s.isDurable) (new : s.IsNew) : Used s
  | perform {s : Store} (h : Used s) (op : Op) : Used (s.perform op).1
  | sweep {t : Table} (h : Used (.table t)) (now hours : Float) (perThread : Int) :
      Used (.table (t.sweep now hours perThread).1)
  | corrupt {s : Store} (h : Used s) (thread text : String) : Used (s.corrupt thread text)

/-- What the store keeps is in the order of saving. -/
inductive InOrder : Store → Prop
  | table {t : Table} (h : t.Ordered) : InOrder (.table t)
  | files {f : Files} (h : f.Numbered) : InOrder (.files f)

/-- Apart from what JSON cannot hold, the store takes the checkpoint. -/
def Takes : Store → Checkpoint → Prop
  | .table t, c => t.HasRoom c
  | .files _, c => Files.HasPlace c
  | _, _ => True

/-- What a store tells of a checkpoint that it refuses: a failure of checkpoints, or that a number is too large for a
    column. -/
def RefusesWith (s : Store) (c : Checkpoint) (f : Fault) : Prop :=
  f.IsCheckpoint ∨ (∃ t, s = .table t) ∧ f = Table.tooLarge ∧ ¬ Table.Fits c

variable {s : Store} {c d : Checkpoint} {p : Payload} {thread : String}

/-! ### Order -/

theorem inOrder_of_isNew (durable : s.isDurable) (h : s.IsNew) : s.InOrder := by
  cases s with
  | memory | limited => cases durable
  | table t =>
    have none : t.rows = [] := h
    exact .table ⟨none ▸ .nil, none ▸ fun _ hr => nomatch hr⟩
  | files f =>
    refine .files ⟨fun thread => ⟨[], ?_⟩, ?_⟩ <;> rw [h.2]
    · rfl
    · exact fun _ hf => nomatch hf

theorem InOrder.perform (h : s.InOrder) (op : Op) : (s.perform op).1.InOrder := by
  -- Only a save adds something, and only a deletion takes something away.
  cases h with
  | @table t h =>
    cases op with
    | save c =>
      simp only [Store.perform, write, Store.save]
      rcases t.save_cases c with ⟨p, -, -, taken⟩ | ⟨f, refused, -, -⟩
      · rw [taken]
        exact .table (h.added c p)
      · rw [refused]
        exact .table h
    | load thread =>
      simp only [Store.perform]
      split <;> exact .table h
    | list thread =>
      simp only [Store.perform]
      split <;> exact .table h
    | delete thread => exact .table (h.filter _)
    | reopen => exact .table h
  | @files f h =>
    cases op with
    | save c =>
      simp only [Store.perform, write]
      rcases f.write_cases c with ⟨p, -, -, taken⟩ | ⟨_, -, -, left, -⟩
      · rw [taken]
        exact .files (h.added c p)
      · -- Even a refused save can leave the directory of the thread.
        have kept : (f.write c).1.Numbered := by
          rcases left with left | left <;> rw [left]
          · exact h
          · exact h.withFolder _
        cases (f.write c).2 <;> exact .files kept
    | load thread =>
      simp only [Store.perform]
      split <;> exact .files h
    | list thread =>
      simp only [Store.perform]
      split <;> exact .files h
    | delete thread =>
      simp only [Store.perform, Store.delete, Files.delete]
      cases Files.checkThread thread with
      | error f => exact .files h
      | ok _ => exact .files (h.dropped thread)
    | reopen => exact .files h

theorem InOrder.corrupt (h : s.InOrder) (thread text : String) : (s.corrupt thread text).InOrder := by
  cases h with
  | @table t h =>
    rw [Store.corrupt, Table.corrupt]
    split
    · refine .table (h.map fun r => ?_)
      split <;> rfl
    · exact .table h
  | @files f h =>
    rw [Store.corrupt, Files.corrupt]
    split
    · refine .files (h.map fun f => ?_)
      split <;> exact ⟨rfl, rfl⟩
    · exact .files h

theorem Used.inOrder (h : s.Used) : s.InOrder := by
  induction h with
  | new durable new => exact inOrder_of_isNew durable new
  | perform _ op ih => exact ih.perform op
  | sweep _ now hours perThread ih =>
    cases ih with
    | table h => exact .table (h.sweep now hours perThread)
  | corrupt _ thread text ih => exact ih.corrupt thread text

/-! ### Saving and loading -/

/-- What is kept of a checkpoint is what its normal form is written as. -/
theorem Payload.ofCheckpoint_eq_ok :
    ofCheckpoint c = .ok p ↔ ∃ d, c.normal = .ok d ∧ p = .document d.toValue := by
  rw [ofCheckpoint, Checkpoint.normal_toValue]
  cases c.normal with
  | error f => simp
  | ok d => simp [eq_comm]

/-- A save is refused, for want of room or of a form in JSON, or the checkpoint is taken. -/
theorem InOrder.save_cases (h : s.InOrder) (c : Checkpoint) :
    (∃ d, c.normal = .ok d ∧ s.Takes c ∧ (s.perform (.save c)).2 = .saved) ∨
      ∃ f, (s.perform (.save c)).2 = .refused f ∧ s.RefusesWith c f ∧ ∀ d, c.normal = .ok d → ¬ s.Takes c := by
  have payload : ∀ d, c.normal = .ok d → Payload.ofCheckpoint c = .ok (.document d.toValue) :=
    fun d hd => Payload.ofCheckpoint_eq_ok.mpr ⟨d, hd, rfl⟩
  cases h with
  | @table t h =>
    simp only [Store.perform, write, Store.save]
    rcases t.save_cases c with ⟨p, hp, room, taken⟩ | ⟨f, refused, why, unfit⟩
    · obtain ⟨d, hd, -⟩ := Payload.ofCheckpoint_eq_ok.mp hp
      rw [taken]
      exact .inl ⟨d, hd, room, rfl⟩
    · rw [refused]
      exact .inr ⟨f, rfl, why.imp_right fun why => ⟨⟨t, rfl⟩, why⟩, fun d hd => unfit _ (payload d hd)⟩
  | @files s h =>
    simp only [Store.perform, write]
    rcases s.write_cases c with ⟨p, hp, place, taken⟩ | ⟨f, refused, why, -, unfit⟩
    · obtain ⟨d, hd, -⟩ := Payload.ofCheckpoint_eq_ok.mp hp
      rw [taken]
      exact .inl ⟨d, hd, place, rfl⟩
    · rw [refused]
      exact .inr ⟨f, rfl, .inl why, fun d hd => unfit _ (payload d hd)⟩

theorem InOrder.saved (h : s.InOrder) (hd : c.normal = .ok d) (takes : s.Takes c) :
    (s.perform (.save c)).2 = .saved := by
  rcases h.save_cases c with ⟨_, -, -, saved⟩ | ⟨f, -, -, unfit⟩
  · exact saved
  · exact absurd takes (unfit d hd)

/-- What was taken last is told from then on, in its normal form. -/
theorem InOrder.load_saved (h : s.InOrder) (version : c.version = checkpointVersion) (own : c.thread = .str thread)
    (few : ∀ f, s = .files f → (f.ofThread thread).length < 10 ^ 8) (hd : c.normal = .ok d) (takes : s.Takes c) :
    (s.perform (.save c)).1.load thread = .ok (some d) := by
  have payload : Payload.ofCheckpoint c = .ok (.document d.toValue) := Payload.ofCheckpoint_eq_ok.mpr ⟨d, hd, rfl⟩
  have read : Checkpoint.ofValue d.toValue = .ok d := Checkpoint.ofValue_toValue (Checkpoint.version_normal version hd)
  have text : c.thread.text = thread := by rw [own]; rfl
  cases h with
  | @table t h =>
    rcases t.save_cases c with ⟨p, hp, -, taken⟩ | ⟨f, -, -, unfit⟩
    · rw [payload] at hp
      cases hp
      have left : ((Store.table t).perform (.save c)).1 = Store.table (t.added c (.document d.toValue)) := by
        simp only [Store.perform, write, Store.save, taken, Except.map]
      rw [left, Store.load, Table.load, (h.added c _).ofThread_eq, Table.added, part_append, if_pos text.symm,
        List.getLast?_concat]
      exact congrArg (Except.map some) read
    · exact absurd takes (unfit _ payload)
  | @files s h =>
    rcases s.write_cases c with ⟨p, hp, place, taken⟩ | ⟨f, -, -, -, unfit⟩
    · rw [payload] at hp
      cases hp
      have left : ((Store.files s).perform (.save c)).1 = Store.files (s.added c (.document d.toValue)) := by
        simp only [Store.perform, write, taken]
      have last : part File.thread (s.added c (.document d.toValue)).files thread =
          part File.thread s.files thread ++ [(s.withFolder c.thread.text).fileOf c (.document d.toValue)] := by
        rw [h.files_added, part_append]
        exact if_pos text.symm
      -- The new file is told last as long as eight digits number the files of the thread.
      have fewAfter : (part File.thread (s.added c (.document d.toValue)).files thread).length ≤ 10 ^ 8 := by
        have count := few s rfl
        rw [h.length_ofThread] at count
        rw [last, List.length_append, List.length_singleton]
        exact count
      rw [left, Store.load, Files.load, Files.checkThread_ok (text ▸ place.1), (h.added c _).ofThread_eq fewAfter, last,
        List.getLast?_concat]
      exact bind_eq_ok.mpr ⟨(), rfl, bind_eq_ok.mpr ⟨d, read, rfl⟩⟩
    · exact absurd takes (unfit _ payload)

theorem perform_load {last : Option Checkpoint} (h : s.load thread = .ok last) :
    (s.perform (.load thread)).2 = .latest last := by
  rw [perform, h]

/-- A durable store refuses a checkpoint, which it does only without room for it or without a form of it in JSON, or
    tells of its normal form from then on. That is the checkpoint itself exactly if all parts of it are kept, and a
    resumption goes on with the very state of the run exactly if the state is. -/
theorem exact_or_refused (used : s.Used) (version : c.version = checkpointVersion) (own : c.thread = .str thread)
    (few : ∀ f, s = .files f → (f.ofThread thread).length < 10 ^ 8) :
    (∃ f, (s.perform (.save c)).2 = .refused f ∧ s.RefusesWith c f ∧ ∀ d, c.normal = .ok d → ¬ s.Takes c) ∨
    ∃ d, c.normal = .ok d ∧ s.Takes c ∧ (s.perform (.save c)).2 = .saved ∧
      ((s.perform (.save c)).1.perform (.load thread)).2 = .latest (some d) ∧ (d = c ↔ c.toValue.Exact) ∧
      ∀ (g : Engine) (overrides : Overrides) (r : Engine.Resumption) (fs : Fields),
        g.resumption thread overrides (s.perform (.save c)).1 = .ok r → c.state = .ofFields fs →
          (r.execution.state = fs ↔ c.state.Exact) := by
  rcases used.inOrder.save_cases c with ⟨d, hd, takes, saved⟩ | refused
  · have loaded := used.inOrder.load_saved version own few hd takes
    refine .inr ⟨d, hd, takes, saved, ?_, Checkpoint.normal_eq_iff version hd, ?_⟩
    · exact perform_load loaded
    · intro g overrides r fs resumed state
      obtain ⟨-, -, written, -⟩ := Checkpoint.normal_eq_ok hd
      rw [Engine.state_of_resumption loaded resumed, state]
      exact Value.fields_eq_iff (state ▸ written)
  · exact .inl refused

/-- A run that waits for an answer, with a state of lists, mappings and numbers. -/
def waiting : Checkpoint :=
  { opening 1 "t" with
    state := .ofFields [("trail", .list [.str "a", .null]), ("score", .float 0.5),
      ("notes", .ofFields [("by", .str "a"), ("marks", .list [.int 3, .list [.bool true]])])]
    status := .paused
    interrupt := some { node := .str "a", prompt := .ofFields [("ask", .str "more?")] } }

theorem exact_waiting : waiting.toValue.Exact := Value.exact_of_normal (v := waiting.toValue) (by rfl)

/-- A thread was begun in it. -/
def begun : Store := ((files { directory := "d" }).perform (.save (opening 0 "t"))).1

theorem begun_eq : ∃ f, begun = .files f ∧ (f.ofThread "t").length = 1 := by
  cases holds_of_isNew (s := files { directory := "d" }) ⟨rfl, rfl⟩ with
  | files h =>
    obtain ⟨f, hf, hold⟩ := h.write (storable_opening 0 isDirectoryName_t)
    refine ⟨f, ?_, ?_⟩
    · rw [begun, perform, write, hf]
    · rw [hold.numbered.length_ofThread, (hold.kept "t").length_eq]
      rfl

/-- A second checkpoint of a thread comes back with all that it holds. -/
theorem exact_or_refused_waiting : (begun.perform (.save waiting)).2 = .saved ∧
    ((begun.perform (.save waiting)).1.perform (.load "t")).2 = .latest (some waiting) := by
  have used : begun.Used := (Used.new (s := files { directory := "d" }) rfl ⟨rfl, rfl⟩).perform _
  obtain ⟨f, hf, count⟩ := begun_eq
  have few : ∀ f, begun = .files f → (f.ofThread "t").length < 10 ^ 8 := by
    rw [hf]
    rintro _ ⟨⟩
    rw [count]
    decide
  have place : begun.Takes waiting := by
    rw [hf]
    exact ⟨isDirectoryName_t, Files.drawnId_noSlash rfl⟩
  rcases exact_or_refused (c := waiting) used rfl rfl few with ⟨f, -, -, unfit⟩ | ⟨d, -, -, saved, last, kept, -⟩
  · exact absurd place (unfit waiting (by rfl))
  · rw [kept.mpr exact_waiting] at last
    exact ⟨saved, last⟩

/-! ### What comes back changed -/

/-- A state with a tuple. -/
def point : Checkpoint := { opening 0 "t" with state := .ofFields [("point", .tuple [.int 1, .int 2])] }

/-- The same with a list in the place of the tuple. -/
def altered : Checkpoint := { opening 0 "t" with state := .ofFields [("point", .list [.int 1, .int 2])] }

/-- A tuple is a value of an array, and no store refuses it; what comes back is not what was saved. -/
theorem point_altered : point.version = checkpointVersion ∧ Files.isDirectoryName point.thread.text ∧
    (∃ type ∈ FieldType.named, type.name = "array" ∧ type.accepts (.tuple [.int 1, .int 2])) ∧ altered ≠ point ∧
    ∀ s ∈ [table {}, files { directory := "d" }], (s.perform (.save point)).2 = .saved ∧
      ((s.perform (.save point)).1.perform (.load "t")).2 = .latest (some altered) := by
  have normal : point.normal = .ok altered := by rfl
  have told : ∀ s : Store, s.InOrder → (∀ f, s = .files f → (f.ofThread "t").length < 10 ^ 8) → s.Takes point →
      (s.perform (.save point)).2 = .saved ∧
        ((s.perform (.save point)).1.perform (.load "t")).2 = .latest (some altered) :=
    fun s order few takes => ⟨order.saved normal takes, perform_load (order.load_saved rfl rfl few normal takes)⟩
  refine ⟨rfl, isDirectoryName_t, by decide, ?_, ?_⟩
  · intro same
    have states : altered.state = point.state := congrArg Checkpoint.state same
    simp [altered, point, Value.ofFields] at states
  · rw [List.forall_mem_cons, List.forall_mem_singleton]
    constructor
    · have room : ({} : Table).HasRoom point := ⟨⟨rfl, rfl⟩, rfl, by simp⟩
      exact told _ (inOrder_of_isNew rfl rfl) (by simp) room
    · refine told _ (inOrder_of_isNew rfl ⟨rfl, rfl⟩) ?_ ⟨isDirectoryName_t, Files.drawnId_noSlash rfl⟩
      rintro _ ⟨⟩
      decide

end Store
end Workflow
