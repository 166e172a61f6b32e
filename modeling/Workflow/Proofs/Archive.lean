import Mathlib.Logic.Function.Basic
import Workflow.Proofs.Ordering
import Workflow.Proofs.Written

/-! Stores as logs. Whatever a store is made of, it answers saves, loads, listings and deletions as a map from threads
    to lists of checkpoints does, for checkpoints that durable stores can hold (`Storable`). What a store refuses to
    save leaves no mark, and nothing is lost when a durable store is opened again.

    The three kinds of stores keep the order of saving by different means. The records of a store in memory are in
    that order; rows are numbered, and a number is never used again; the names of files begin with how many files
    there were in the directory, which restarts when a thread is deleted (`Files.Holds`). -/

namespace Workflow

/-- The time is a number that a column can hold. -/
def Value.IsTime : Value → Prop
  | .int n => Store.Table.fitsColumn n
  | .float x => x.isNaN = false
  | _ => False

/-- A checkpoint of the current version, under a drawn id and of a thread that can be a directory, whose parts JSON can
    hold and whose numbers fit the columns. -/
structure Checkpoint.Storable (c : Checkpoint) : Prop where
  version : c.version = checkpointVersion
  id : ∃ n, c.id = Surroundings.drawnId n
  thread : ∃ t, c.thread = .str t ∧ Store.Files.isDirectoryName t
  graph : c.graph.IsJson
  node : c.node.IsJson
  state : c.state.IsJson
  prompt : ∀ i, c.interrupt = some i → i.node.IsJson ∧ i.prompt.IsJson
  history : ∀ v ∈ c.history, v.IsJson
  error : c.error.IsJson
  metadata : c.metadata.IsJson
  step : Store.Table.fitsColumn c.step
  timestamp : c.timestamp.IsTime

namespace Store

inductive Op where
  | save (c : Checkpoint)
  | load (thread : String)
  | list (thread : String)
  | delete (thread : String)
  /-- The process ends, and another one takes the store over. -/
  | reopen

inductive Reply where
  | saved
  | refused (f : Fault)
  | latest (c : Option Checkpoint)
  | all (cs : List Checkpoint)
  | deleted (n : Nat)
  | reopened

namespace Op

/-- The id that a save uses. -/
def id? : Op → Option String
  | .save c => some c.id.text
  | _ => none

def thread? : Op → Option String
  | .save c => some c.thread.text
  | .load t | .list t | .delete t => some t
  | .reopen => none

end Op

def perform (s : Store) : Op → Store × Reply
  | .save c =>
    match s.write c with
    | (s, .ok _) => (s, .saved)
    | (s, .error f) => (s, .refused f)
  | .load thread =>
    match s.load thread with
    | .ok c => (s, .latest c)
    | .error f => (s, .refused f)
  | .list thread =>
    match s.list thread with
    | .ok cs => (s, .all cs)
    | .error f => (s, .refused f)
  | .delete thread =>
    match s.delete thread with
    | .ok (s, n) => (s, .deleted n)
    | .error f => (s, .refused f)
  | .reopen => (s.reopened, .reopened)

/-- The store after operations. -/
def after (s : Store) (ops : List Op) : Store := ops.foldl (fun s op => (s.perform op).1) s

/-- What is answered to operations one after another. -/
def replies (s : Store) : List Op → List Reply
  | [] => []
  | op :: ops => (s.perform op).2 :: replies (s.perform op).1 ops

/-- What a store is to be: of each thread the checkpoints in the order of saving. -/
abbrev Log := String → List Checkpoint

namespace Log

def empty : Log := fun _ => []

def perform (log : Log) : Op → Log × Reply
  | .save c => (Function.update log c.thread.text (log c.thread.text ++ [c]), .saved)
  | .load thread => (log, .latest (log thread).getLast?)
  | .list thread => (log, .all (log thread))
  | .delete thread => (Function.update log thread [], .deleted (log thread).length)
  | .reopen => (log, .reopened)

def after (log : Log) (ops : List Op) : Log := ops.foldl (fun log op => (log.perform op).1) log

def replies (log : Log) : List Op → List Reply
  | [] => []
  | op :: ops => (log.perform op).2 :: replies (log.perform op).1 ops

theorem perform_save (log : Log) (c : Checkpoint) (other : String) :
    (log.perform (.save c)).1 other = if other = c.thread.text then log other ++ [c] else log other := by
  show Function.update log c.thread.text (log c.thread.text ++ [c]) other = _
  split
  · rename_i same
    rw [same, Function.update_self]
  · rename_i differs
    exact Function.update_of_ne differs _ _

theorem perform_delete (log : Log) (thread other : String) :
    (log.perform (.delete thread)).1 other = if other = thread then [] else log other := by
  show Function.update log thread [] other = _
  split
  · rename_i same
    rw [same, Function.update_self]
  · rename_i differs
    exact Function.update_of_ne differs _ _

end Log

/-- Operations on what `log` tells of, in which the ids `ids` were used: saves are of checkpoints that all stores can
    hold, each under an id of its own, and a thread never has 10⁸ of them. -/
structure Admissible (log : Log) (ids : List String) (ops : List Op) : Prop where
  storable : ∀ c, .save c ∈ ops → c.Storable
  distinct : (ids ++ ops.filterMap Op.id?).Nodup
  threads : ∀ op ∈ ops, ∀ t ∈ op.thread?, Files.isDirectoryName t
  few : ∀ before, before <+: ops → ∀ thread, (log.after before thread).length < 10 ^ 8

/-- Nothing was saved to the store yet. -/
def IsNew : Store → Prop
  | .memory saved => saved = []
  | .table t => t.rows = []
  | .files f => f.folders = [] ∧ f.files = []
  | .limited _ _ _ => False

variable {s : Store} {c : Checkpoint} {log : Log} {ids : List String} {saved : List Checkpoint} {op : Op}
  {ops : List Op} {thread other : String}

theorem Admissible.tail (h : Admissible log ids (op :: ops)) :
    Admissible (log.perform op).1 (ids ++ op.id?.toList) ops where
  storable c hc := h.storable c (List.mem_cons_of_mem op hc)
  distinct := by
    have used : (op :: ops).filterMap Op.id? = op.id?.toList ++ ops.filterMap Op.id? := by
      rw [List.filterMap_cons]
      cases op.id? <;> rfl
    rw [List.append_assoc, ← used]
    exact h.distinct
  threads op hop := h.threads op (List.mem_cons_of_mem _ hop)
  few before hb := h.few (op :: before) (List.cons_prefix_cons.mpr ⟨rfl, hb⟩)

/-! ### What is written of a checkpoint -/

theorem isJson_toValue (h : c.Storable) : c.toValue.IsJson := by
  refine Value.isJson_ofFields c.nodup_toFields ?_
  obtain ⟨n, hid⟩ := h.id
  obtain ⟨t, hthread, -⟩ := h.thread
  have timestamp : c.timestamp.IsJson := by
    have time := h.timestamp
    cases ht : c.timestamp <;> rw [ht] at time <;> first | exact time.elim | skip
    · exact .int _
    · exact .float time
  have interrupt : ((c.interrupt.map Interrupt.toValue).getD .null).IsJson := by
    cases hi : c.interrupt with
    | none => exact .null
    | some i =>
      obtain ⟨node, prompt⟩ := h.prompt i hi
      have distinct : ["node_id", "prompt", "kind"].Nodup := by decide
      refine Value.isJson_ofFields distinct ?_
      simp only [List.forall_mem_cons]
      exact ⟨node, prompt, .str _, fun _ hf => nomatch hf⟩
  have version : c.version.IsJson := h.version ▸ .int 1
  have id : c.id.IsJson := hid ▸ .str _
  have thread : c.thread.IsJson := hthread ▸ .str t
  simp only [Checkpoint.toFields, List.forall_mem_cons]
  exact ⟨version, id, thread, h.graph, h.node, h.state, .int _, .str _, interrupt, .list h.history, h.error, timestamp,
    h.metadata, fun _ hf => nomatch hf⟩

/-- What is written down of a run that has not failed, under a drawn id. -/
theorem storable_checkpoint {e : Execution} {graph : String} {n : Nat} (directory : Files.isDirectoryName e.thread)
    (state : (Value.ofFields e.state).IsJson) (prompt : ∀ i, e.interrupt = some i → i.node.IsJson ∧ i.prompt.IsJson)
    (unfailed : e.error = none) (metadata : e.metadata.IsJson) (step : Table.fitsColumn e.step)
    (soon : Table.fitsColumn n) : (e.checkpoint graph (Surroundings.drawnId n) (.int n)).Storable where
  version := rfl
  id := ⟨n, rfl⟩
  thread := ⟨e.thread, rfl, directory⟩
  graph := .str graph
  node := .str e.node
  state := state
  prompt := prompt
  history := by
    rw [Execution.checkpoint, List.forall_mem_map]
    exact fun s _ => .str s
  error := by
    rw [Execution.checkpoint, unfailed]
    exact .null
  metadata := metadata
  step := step
  timestamp := soon

theorem Payload.ofCheckpoint_eq (h : c.Storable) : ofCheckpoint c = .ok (.document c.toValue) := by
  rw [ofCheckpoint, Json.normal_eq (isJson_toValue h)]

/-- The payload is read as the checkpoint. -/
def Payload.Holds (p : Payload) (c : Checkpoint) : Prop := ∀ unreadable, p.read unreadable = .ok c

theorem Payload.holds_document (h : c.Storable) : (Payload.document c.toValue).Holds c :=
  fun _ => Checkpoint.ofValue_toValue h.version

/-! ### What threads have of a list -/

section Parts
variable {α : Type} {key : α → String} {payload : α → Payload} {unreadable : α → Payload.Unreadable} {x : α}
  {as xs : List α} {cs : List Checkpoint}

/-- The payloads under each thread hold its checkpoints. -/
def Keeps (key : α → String) (payload : α → Payload) (xs : List α) (log : Log) : Prop :=
  ∀ thread, List.Forall₂ (fun x c => (payload x).Holds c) (part key xs thread) (log thread)

theorem Keeps.save (h : Keeps key payload xs log) (hx : key x = c.thread.text) (holds : (payload x).Holds c) :
    Keeps key payload (xs ++ [x]) (log.perform (.save c)).1 := by
  intro other
  rw [part_append, hx, Log.perform_save]
  split
  · exact List.rel_append (h other) (.cons holds .nil)
  · exact h other

theorem Keeps.delete (h : Keeps key payload xs log) (thread : String) :
    Keeps key payload (xs.filter fun x => key x != thread) (log.perform (.delete thread)).1 := by
  intro other
  rw [part_delete, Log.perform_delete]
  split
  · exact .nil
  · exact h other

/-- What is written is read in its order. -/
theorem mapM_read (h : List.Forall₂ (fun x c => (payload x).Holds c) xs cs) :
    xs.mapM (fun x => (payload x).read (unreadable x)) = .ok cs := by
  induction h with
  | nil => rfl
  | cons holds _ ih =>
    rw [List.mapM_cons, holds, ih]
    rfl

end Parts

/-! ### In memory -/

theorem ofThread_save (hc : c.thread = .str thread) (h : ∀ thread, ofThread saved thread = log thread)
    (other : String) :
    ofThread (saved ++ [c]) other = (log.perform (.save c)).1 other := by
  rw [ofThread_append, Checkpoint.isOf_eq hc, Log.perform_save, hc, Value.text, h]
  by_cases same : other = thread
  · rw [if_pos same, same, if_pos (beq_self_eq_true thread)]
  · rw [if_neg same, if_neg (by rw [beq_iff_eq]; exact Ne.symm same), List.append_nil]

theorem ofThread_delete (h : ∀ thread, ofThread saved thread = log thread) (thread other : String) :
    ofThread (without saved thread) other = (log.perform (.delete thread)).1 other := by
  rw [Log.perform_delete]
  split
  · rename_i same
    rw [same, ofThread_without]
  · rename_i differs
    rw [ofThread_without_of_ne saved differs, h]

/-! ### In a table -/

namespace Table

/-- The rows of each thread hold its checkpoints, numbers grow, and no id is used but those in `ids`. -/
structure Holds (t : Table) (log : Log) (ids : List String) : Prop where
  kept : Keeps Row.thread Row.payload t.rows log
  ordered : t.rows.Pairwise fun r s => r.number < s.number
  next : ∀ r ∈ t.rows, r.number < t.next
  ids : ∀ r ∈ t.rows, r.id ∈ ids

variable {t : Table}

theorem Holds.inOrder (h : t.Holds log ids) : t.Ordered := ⟨h.ordered, h.next⟩

theorem Holds.ofThread_eq (h : t.Holds log ids) (thread : String) :
    t.ofThread thread = part Row.thread t.rows thread := h.inOrder.ofThread_eq thread

theorem Holds.load (h : t.Holds log ids) (thread : String) : t.load thread = .ok (log thread).getLast? := by
  have last := getLast?_of_forall₂ (h.kept thread)
  rw [Table.load, h.ofThread_eq]
  generalize (part Row.thread t.rows thread).getLast? = r at last ⊢
  generalize (log thread).getLast? = c at last ⊢
  cases last with
  | none => rfl
  | some holds => exact congrArg (Except.map some) (holds _)

theorem Holds.list (h : t.Holds log ids) (thread : String) : t.list thread = .ok (log thread) := by
  rw [Table.list, h.ofThread_eq]
  exact mapM_read (h.kept thread)

theorem Holds.delete (h : t.Holds log ids) (thread : String) : (t.delete thread).2 = (log thread).length ∧
    (t.delete thread).1.Holds (log.perform (.delete thread)).1 ids := by
  have fewer : ∀ r ∈ (t.delete thread).1.rows, r ∈ t.rows := fun r hr => (List.mem_filter.mp hr).1
  constructor
  · show (t.ofThread thread).length = _
    rw [h.ofThread_eq, (h.kept thread).length_eq]
  · have left := h.inOrder.filter fun r => r.thread != thread
    exact ⟨h.kept.delete thread, left.rows, left.next, fun r hr => h.ids r (fewer r hr)⟩

/-- The row that a checkpoint is written to. -/
def rowFor (t : Table) (c : Checkpoint) : Row :=
  ⟨t.next, c.id.text, c.thread.text, timeOf c.timestamp, .document c.toValue⟩

theorem hasRoom (h : c.Storable) (fresh : ∀ r ∈ t.rows, r.id ≠ c.id.text) : t.HasRoom c := by
  have time := h.timestamp
  cases ht : c.timestamp with
  | int n =>
    rw [ht] at time
    exact ⟨⟨h.step, by rw [ht]; exact congrArg not time⟩, by rw [ht]; rfl, fresh⟩
  | float x =>
    rw [ht] at time
    exact ⟨⟨h.step, by rw [ht]; rfl⟩, by rw [ht]; exact congrArg not time, fresh⟩
  | _ =>
    rw [ht] at time
    exact time.elim

theorem save_eq (h : c.Storable) (fresh : ∀ r ∈ t.rows, r.id ≠ c.id.text) :
    t.save c = .ok (t.added c (.document c.toValue)) := by
  have written := Payload.ofCheckpoint_eq h
  rcases t.save_cases c with ⟨p, hp, -, taken⟩ | ⟨f, -, -, unfit⟩
  · rw [written] at hp
    cases hp
    exact taken
  · exact absurd (hasRoom h fresh) (unfit _ written)

theorem write_of_save {u : Table} (saved : t.save c = .ok u) : (table t).write c = (.table u, .ok ()) := by
  simp only [Store.write, Store.save, saved]
  rfl

theorem Holds.save (h : t.Holds log ids) (hc : c.Storable) (fresh : c.id.text ∉ ids) :
    ∃ u, t.save c = .ok u ∧ u.Holds (log.perform (.save c)).1 (ids ++ [c.id.text]) := by
  refine ⟨_, save_eq hc fun r hr same => fresh (same ▸ h.ids r hr), ?_⟩
  have longer := h.inOrder.added c (.document c.toValue)
  refine ⟨h.kept.save (x := t.rowFor c) rfl (Payload.holds_document hc), longer.rows, longer.next, ?_⟩
  simp only [Table.added, List.forall_mem_append, List.forall_mem_singleton]
  exact ⟨fun r hr => List.mem_append_left _ (h.ids r hr), List.mem_append_right _ List.mem_cons_self⟩

end Table

/-! ### In files -/

namespace Files

/-- A file is read as in any other store at the same place. -/
theorem readFile_eq_of_directory {s u : Files} (h : u.directory = s.directory) : u.readFile = s.readFile := by
  funext f
  unfold readFile unreadable path
  rw [h]

/-- The files of each thread hold its checkpoints, and are named after how many there were before. A thread with
    checkpoints has a directory. -/
structure Holds (s : Files) (log : Log) : Prop where
  kept : Keeps File.thread File.payload s.files log
  named : ∀ thread,
    (part File.thread s.files thread).map File.name = (log thread).mapIdx fun i c => fileName i c.id.text
  folders : ∀ thread, log thread ≠ [] → thread ∈ s.folders

variable {s : Files}

theorem Holds.numbered (h : s.Holds log) : s.Numbered where
  named thread := ⟨(log thread).map fun c => c.id.text, (h.named thread).trans (List.ext_getElem (by simp) (by simp))⟩
  housed f hf := by
    refine h.folders f.thread fun empty => ?_
    have kept := h.kept f.thread
    rw [empty, List.forall₂_nil_right_iff] at kept
    exact List.ne_nil_of_mem (List.mem_filter.mpr ⟨hf, beq_self_eq_true f.thread⟩) kept

theorem Holds.ofThread_eq (h : s.Holds log) (few : (log thread).length < 10 ^ 8) :
    s.ofThread thread = part File.thread s.files thread :=
  h.numbered.ofThread_eq ((h.kept thread).length_eq ▸ Nat.le_of_lt few)

theorem Holds.load (h : s.Holds log) (few : (log thread).length < 10 ^ 8) (ht : isDirectoryName thread) :
    s.load thread = .ok (log thread).getLast? := by
  have last := getLast?_of_forall₂ (h.kept thread)
  refine bind_eq_ok.mpr ⟨(), checkThread_ok ht, ?_⟩
  rw [h.ofThread_eq few]
  generalize (part File.thread s.files thread).getLast? = f at last ⊢
  generalize (log thread).getLast? = c at last ⊢
  cases last with
  | none => rfl
  | some holds => exact bind_eq_ok.mpr ⟨_, holds _, rfl⟩

theorem Holds.list (h : s.Holds log) (few : (log thread).length < 10 ^ 8) (ht : isDirectoryName thread) :
    s.list thread = .ok (log thread) := by
  refine bind_eq_ok.mpr ⟨(), checkThread_ok ht, ?_⟩
  rw [h.ofThread_eq few]
  exact mapM_read (h.kept thread)

theorem Holds.delete (h : s.Holds log) (ht : isDirectoryName thread) :
    ∃ u, s.delete thread = .ok (u, (log thread).length) ∧ u.Holds (log.perform (.delete thread)).1 := by
  refine ⟨s.dropped thread, bind_eq_ok.mpr ⟨(), checkThread_ok ht, ?_⟩, h.kept.delete thread, ?_, ?_⟩
  · rw [h.numbered.length_ofThread, (h.kept thread).length_eq]
    rfl
  · intro other
    show (part File.thread (s.files.filter fun f => f.thread != thread) other).map _ = _
    rw [part_delete, Log.perform_delete]
    split
    · rfl
    · exact h.named other
  · intro other held
    rw [Log.perform_delete] at held
    split at held
    · exact absurd rfl held
    · rename_i differs
      exact List.mem_filter.mpr ⟨h.folders other held, bne_iff_ne.mpr differs⟩

theorem Holds.withFolder (h : s.Holds log) (thread : String) : (s.withFolder thread).Holds log where
  kept := by
    rw [files_withFolder]
    exact h.kept
  named := by
    rw [files_withFolder]
    exact h.named
  folders other held := (mem_withFolder s thread other).mpr (.inl (h.folders other held))

/-- The file that a checkpoint is written to, in a directory with `n` files. -/
def fileFor (n : Nat) (c : Checkpoint) : File := ⟨c.thread.text, fileName n c.id.text, .document c.toValue⟩

theorem Holds.put_files (h : s.Holds log) :
    (s.put (fileFor (log c.thread.text).length c)).files = s.files ++ [fileFor (log c.thread.text).length c] :=
  h.numbered.put_files (by rw [fileFor, (h.kept _).length_eq])

theorem Holds.put (h : s.Holds log) (hc : c.Storable) (folder : c.thread.text ∈ s.folders) :
    (s.put (fileFor (log c.thread.text).length c)).Holds (log.perform (.save c)).1 := by
  constructor
  · rw [h.put_files]
    exact h.kept.save rfl (Payload.holds_document hc)
  · intro other
    have thread : (fileFor (log c.thread.text).length c).thread = c.thread.text := rfl
    rw [h.put_files, part_append, thread, Log.perform_save]
    split
    · rename_i same
      rw [same, List.map_append, h.named, List.mapIdx_concat]
      rfl
    · exact h.named other
  · intro other held
    rw [Log.perform_save] at held
    split at held
    · rename_i same
      exact same ▸ folder
    · exact h.folders other held

theorem drawnId_noSlash {n : Nat} (h : c.id = Surroundings.drawnId n) : c.id.text.contains '/' = false := by
  have digits : ∀ width n, '/' ∉ Text.hexDigits width n := by
    intro width
    induction width with
    | zero => exact fun _ => List.not_mem_nil
    | succ width ih =>
      intro n mem
      rw [Text.hexDigits, List.mem_append, List.mem_singleton] at mem
      have table : ∀ m < 16, '/' ≠ Text.hexDigit m := by decide
      exact mem.elim (ih _) (table _ (Nat.mod_lt n (by decide)))
  rw [h, String.contains_char_eq, decide_eq_false_iff_not]
  show '/' ∉ (String.ofList (Text.hexDigits 32 n)).toList
  rw [String.toList_ofList]
  exact digits 32 n

theorem hasPlace (h : c.Storable) : HasPlace c := by
  obtain ⟨t, ht, named⟩ := h.thread
  obtain ⟨n, hid⟩ := h.id
  exact ⟨ht ▸ named, drawnId_noSlash hid⟩

theorem Holds.write (h : s.Holds log) (hc : c.Storable) :
    ∃ u, s.write c = (u, .ok ()) ∧ u.Holds (log.perform (.save c)).1 := by
  have written := Payload.ofCheckpoint_eq hc
  rcases s.write_cases c with ⟨p, hp, -, taken⟩ | ⟨f, -, -, -, unfit⟩
  · rw [written] at hp
    cases hp
    have inFolder := h.withFolder c.thread.text
    have number : ((s.withFolder c.thread.text).ofThread c.thread.text).length = (log c.thread.text).length := by
      rw [inFolder.numbered.length_ofThread, (inFolder.kept _).length_eq]
    refine ⟨_, taken, ?_⟩
    rw [added, fileOf, number]
    exact inFolder.put hc ((mem_withFolder _ _ _).mpr (.inr rfl))
  · exact absurd (hasPlace hc) (unfit _ written)

end Files

end Store

end Workflow
