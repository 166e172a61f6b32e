import Workflow.Proofs.Archive

/-! What stores answer. A store to which nothing was saved yet answers any operations as the empty log does
    (`Holds.replies_eq`); a save that is refused changes no answer that follows it (`Alike.replies_eq`), though it may
    leave an empty directory behind. -/

namespace Workflow.Store

/-- The store has what the log tells of, and used no ids but `ids`. -/
inductive Holds : Store → Log → List String → Prop
  | memory {saved : List Checkpoint} {log : Log} {ids : List String}
      (h : ∀ thread, ofThread saved thread = log thread) :
      Holds (.memory saved) log ids
  | table {t : Table} {log : Log} {ids : List String} (h : Table.Holds t log ids) :
      Holds (.table t) log ids
  | files {f : Files} {log : Log} {ids : List String} (h : Files.Holds f log) :
      Holds (.files f) log ids

/-- The same files, and directories for all of them. -/
structure Files.Alike (s u : Files) : Prop where
  directory : u.directory = s.directory
  files : u.files = s.files
  housed : ∀ f ∈ s.files, f.thread ∈ s.folders ∧ f.thread ∈ u.folders

/-- Stores that differ at most in directories without files. -/
inductive Alike : Store → Store → Prop
  | memory (saved : List Checkpoint) : Alike (.memory saved) (.memory saved)
  | table (t : Table) : Alike (.table t) (.table t)
  | files {f g : Files} (h : Files.Alike f g) : Alike (.files f) (.files g)
  | limited (saved : List Checkpoint) (n : Nat) (hint : Option String) :
      Alike (.limited saved n hint) (.limited saved n hint)

variable {s u : Store} {c : Checkpoint} {f : Fault} {log : Log} {ids : List String} {op : Op} {ops : List Op}
  {thread : String}

/-! ### The log -/

theorem holds_of_isNew (h : s.IsNew) : s.Holds Log.empty [] := by
  cases s with
  | memory saved =>
    cases h
    exact .memory fun _ => rfl
  | table t =>
    have none : t.rows = [] := h
    refine .table ⟨fun _ => ?_, ?_, ?_, ?_⟩ <;> rw [none]
    · exact .nil
    · exact .nil
    · exact fun _ hr => nomatch hr
    · exact fun _ hr => nomatch hr
  | files f =>
    refine .files ⟨fun _ => ?_, fun _ => ?_, fun _ held => absurd rfl held⟩ <;> rw [h.2]
    · exact .nil
    · rfl
  | limited => exact h.elim

/-- No operation makes a store of one kind one of another. -/
theorem kindName_perform (s : Store) (op : Op) : (s.perform op).1.kindName = s.kindName := by
  cases op with
  | save c =>
    cases s with
    | memory => rfl
    | table t =>
      simp only [perform, write, Store.save]
      cases t.save c <;> rfl
    | files f =>
      simp only [perform, write]
      cases (f.write c).2 <;> rfl
    | limited saved n hint => cases n <;> rfl
  | load t =>
    simp only [perform]
    split <;> rfl
  | list t =>
    simp only [perform]
    split <;> rfl
  | delete t =>
    cases s with
    | memory | table | limited => rfl
    | files f =>
      simp only [perform, Store.delete]
      cases f.delete t <;> rfl
  | reopen => cases s <;> rfl

theorem isDurable_of_kindName (h : u.kindName = s.kindName) : u.isDurable = s.isDurable := by
  cases u <;> cases s <;> first | rfl | simp [kindName] at h

theorem Holds.save (h : s.Holds log ids) (hc : c.Storable) (fresh : c.id.text ∉ ids) :
    ∃ u, s.perform (.save c) = (u, .saved) ∧ u.Holds (log.perform (.save c)).1 (ids ++ [c.id.text]) := by
  cases h with
  | memory h =>
    obtain ⟨t, ht, -⟩ := hc.thread
    exact ⟨_, rfl, .memory (ofThread_save ht h)⟩
  | table h =>
    obtain ⟨u, hu, hold⟩ := h.save hc fresh
    refine ⟨.table u, ?_, .table hold⟩
    simp only [perform, write, Store.save, hu]
    rfl
  | files h =>
    obtain ⟨u, hu, hold⟩ := h.write hc
    refine ⟨.files u, ?_, .files hold⟩
    rw [perform, write, hu]

theorem Holds.load (h : s.Holds log ids) (few : (log thread).length < 10 ^ 8) (ht : Files.isDirectoryName thread) :
    s.load thread = .ok (log thread).getLast? := by
  cases h with
  | memory h => exact congrArg (fun cs => Except.ok cs.getLast?) (h thread)
  | table h => exact h.load thread
  | files h => exact h.load few ht

theorem Holds.list (h : s.Holds log ids) (few : (log thread).length < 10 ^ 8) (ht : Files.isDirectoryName thread) :
    s.list thread = .ok (log thread) := by
  cases h with
  | memory h => exact congrArg Except.ok (h thread)
  | table h => exact h.list thread
  | files h => exact h.list few ht

theorem Holds.delete (h : s.Holds log ids) (ht : Files.isDirectoryName thread) :
    ∃ u, s.delete thread = .ok (u, (log thread).length) ∧ u.Holds (log.perform (.delete thread)).1 ids := by
  cases h with
  | @memory saved _ _ h =>
    have count : (ofThread saved thread).length = (log thread).length := congrArg List.length (h thread)
    exact ⟨.memory (without saved thread), congrArg (fun n => Except.ok (_, n)) count,
      .memory (ofThread_delete h thread)⟩
  | @table t _ _ h =>
    obtain ⟨count, hold⟩ := h.delete thread
    exact ⟨.table (t.delete thread).1, congrArg (fun n => Except.ok (_, n)) count, .table hold⟩
  | files h =>
    obtain ⟨u, hu, hold⟩ := h.delete ht
    refine ⟨.files u, ?_, .files hold⟩
    rw [Store.delete, hu]
    rfl

theorem Holds.perform (h : s.Holds log ids) (ok : Admissible log ids (op :: ops))
    (stays : op = .reopen → s.isDurable) : (s.perform op).2 = (log.perform op).2 ∧
      (s.perform op).1.Holds (log.perform op).1 (ids ++ op.id?.toList) := by
  have few : ∀ thread, (log thread).length < 10 ^ 8 := ok.few [] List.nil_prefix
  have threads := ok.threads op List.mem_cons_self
  cases op with
  | save c =>
    have fresh : c.id.text ∉ ids := fun used =>
      (List.nodup_append.mp ok.distinct).2.2 _ used _ List.mem_cons_self rfl
    obtain ⟨u, hu, hold⟩ := h.save (ok.storable c List.mem_cons_self) fresh
    rw [hu]
    exact ⟨rfl, hold⟩
  | load t =>
    rw [Store.perform, h.load (few t) (threads t rfl)]
    exact ⟨rfl, (List.append_nil ids).symm ▸ h⟩
  | list t =>
    rw [Store.perform, h.list (few t) (threads t rfl)]
    exact ⟨rfl, (List.append_nil ids).symm ▸ h⟩
  | delete t =>
    obtain ⟨u, hu, hold⟩ := h.delete (threads t rfl)
    rw [Store.perform, hu]
    exact ⟨rfl, (List.append_nil ids).symm ▸ hold⟩
  | reopen =>
    have durable := stays rfl
    cases h with
    | memory => cases durable
    | table h => exact ⟨rfl, (List.append_nil ids).symm ▸ .table h⟩
    | files h => exact ⟨rfl, .files h⟩

/-- Whatever a store is made of, it answers as the log does. -/
theorem Holds.replies_eq (h : s.Holds log ids) (ok : Admissible log ids ops) (stays : .reopen ∈ ops → s.isDurable) :
    s.replies ops = log.replies ops := by
  induction ops generalizing s log ids with
  | nil => rfl
  | cons op ops ih =>
    obtain ⟨reply, hold⟩ := h.perform ok fun hop => stays (hop ▸ List.mem_cons_self)
    rw [replies, Log.replies, reply]
    refine congrArg _ (ih hold ok.tail fun hop => ?_)
    rw [isDurable_of_kindName (kindName_perform s op)]
    exact stays (List.mem_cons_of_mem op hop)

/-! ### Saves that are refused -/

namespace Files

variable {s u : Files}

theorem Alike.ofThread_eq (h : s.Alike u) (thread : String) : u.ofThread thread = s.ofThread thread := by
  have empty : ∀ {folders : List String}, (∀ f ∈ s.files, f.thread ∈ folders) → folders.contains thread = false →
      s.files.filter (fun f => f.thread == thread) = [] := by
    intro folders housed absent
    refine List.filter_eq_nil_iff.mpr fun f hf same => ?_
    rw [beq_iff_eq] at same
    have there := List.contains_iff_mem.mpr (same ▸ housed f hf)
    rw [absent] at there
    cases there
  -- A directory that only one of the stores has holds no files.
  rw [ofThread, ofThread, h.files]
  cases hs : s.folders.contains thread with
  | false =>
    rw [empty (fun f hf => (h.housed f hf).1) hs, List.mergeSort_nil]
    exact ite_self _
  | true =>
    cases hu : u.folders.contains thread with
    | false =>
      rw [empty (fun f hf => (h.housed f hf).2) hu, List.mergeSort_nil]
      rfl
    | true => rfl

theorem Alike.path_eq (h : s.Alike u) : u.path = s.path := by
  funext thread name
  rw [path, path, h.directory]

theorem Alike.withFolder (h : s.Alike u) (thread : String) : (s.withFolder thread).Alike (u.withFolder thread) where
  directory := by rw [directory_withFolder, directory_withFolder, h.directory]
  files := by rw [files_withFolder, files_withFolder, h.files]
  housed f hf := by
    rw [files_withFolder] at hf
    exact (h.housed f hf).imp (fun h => (mem_withFolder _ _ _).mpr (.inl h)) fun h =>
      (mem_withFolder _ _ _).mpr (.inl h)

theorem Alike.put (h : s.Alike u) {f : File} (hs : f.thread ∈ s.folders) (hu : f.thread ∈ u.folders) :
    (s.put f).Alike (u.put f) where
  directory := h.directory
  files := by rw [Files.put, Files.put, h.files]
  housed g hg := by
    rcases List.mem_append.mp hg with hg | hg
    · exact h.housed g (List.mem_filter.mp hg).1
    · rw [List.mem_singleton.mp hg]
      exact ⟨hs, hu⟩

theorem Alike.write (h : s.Alike u) (c : Checkpoint) :
    (u.write c).2 = (s.write c).2 ∧ (s.write c).1.Alike (u.write c).1 := by
  rw [Files.write, Files.write]
  cases Payload.ofCheckpoint c with
  | error f => exact ⟨rfl, h⟩
  | ok payload =>
    cases checkThread c.thread.text with
    | error f => exact ⟨rfl, h⟩
    | ok _ =>
      have folder := h.withFolder c.thread.text
      dsimp only
      rw [folder.ofThread_eq, folder.path_eq]
      split
      · exact ⟨rfl, folder⟩
      · exact ⟨rfl, folder.put ((mem_withFolder _ _ _).mpr (.inr rfl)) ((mem_withFolder _ _ _).mpr (.inr rfl))⟩

theorem Alike.dropped (h : s.Alike u) (thread : String) : (s.dropped thread).Alike (u.dropped thread) where
  directory := h.directory
  files := by rw [Files.dropped, Files.dropped, h.files]
  housed f hf := by
    obtain ⟨hf, differs⟩ := List.mem_filter.mp hf
    exact (h.housed f hf).imp (fun h => List.mem_filter.mpr ⟨h, differs⟩) fun h => List.mem_filter.mpr ⟨h, differs⟩

theorem Alike.load_eq (h : s.Alike u) (thread : String) : u.load thread = s.load thread := by
  rw [load, load, h.ofThread_eq, readFile_eq_of_directory h.directory]

theorem Alike.list_eq (h : s.Alike u) (thread : String) : u.list thread = s.list thread := by
  rw [list, list, h.ofThread_eq, readFile_eq_of_directory h.directory]

/-- A refused save leaves at most an empty directory. -/
theorem Alike.refused (h : s.Alike s) (hr : (s.write c).2 = .error f) : s.Alike (s.write c).1 := by
  rcases s.write_cases c with ⟨p, -, -, taken⟩ | ⟨f, -, -, left, -⟩
  · rw [taken] at hr
    cases hr
  · rcases left with left | left <;> rw [left]
    · exact h
    · exact {
        directory := directory_withFolder _ _
        files := files_withFolder _ _
        housed := fun g hg => ⟨(h.housed g hg).1, (mem_withFolder _ _ _).mpr (.inl (h.housed g hg).1)⟩ }

end Files

/-- A store without directories is like itself. -/
theorem alike_self (h : ∀ f, s ≠ .files f) : s.Alike s := by
  cases s with
  | memory => exact .memory _
  | table => exact .table _
  | files f => exact absurd rfl (h f)
  | limited => exact .limited _ _ _

theorem alike_perform_self (h : ∀ f, s ≠ .files f) (op : Op) : (s.perform op).1.Alike (s.perform op).1 := by
  refine alike_self fun f hf => ?_
  have kind := kindName_perform s op
  rw [hf] at kind
  cases s <;> first | exact h _ rfl | simp [kindName] at kind

/-- Stores that are alike answer alike, and stay so. -/
theorem Alike.perform (h : s.Alike u) (op : Op) :
    (u.perform op).2 = (s.perform op).2 ∧ (s.perform op).1.Alike (u.perform op).1 := by
  cases h with
  | memory => exact ⟨rfl, alike_perform_self (fun _ => Store.noConfusion) op⟩
  | table => exact ⟨rfl, alike_perform_self (fun _ => Store.noConfusion) op⟩
  | limited => exact ⟨rfl, alike_perform_self (fun _ => Store.noConfusion) op⟩
  | @files f g h =>
    cases op with
    | save c =>
      obtain ⟨reply, alike⟩ := h.write c
      simp only [Store.perform, write, reply]
      cases (f.write c).2 <;> exact ⟨rfl, .files alike⟩
    | load t =>
      simp only [Store.perform, Store.load, h.load_eq]
      cases f.load t <;> exact ⟨rfl, .files h⟩
    | list t =>
      simp only [Store.perform, Store.list, h.list_eq]
      cases f.list t <;> exact ⟨rfl, .files h⟩
    | delete t =>
      simp only [Store.perform, Store.delete, Files.delete, h.ofThread_eq]
      cases Files.checkThread t with
      | error f => exact ⟨rfl, .files h⟩
      | ok _ => exact ⟨rfl, .files (h.dropped t)⟩
    | reopen => exact ⟨rfl, .files h⟩

theorem Alike.replies_eq (h : s.Alike u) (ops : List Op) : u.replies ops = s.replies ops := by
  induction ops generalizing s u with
  | nil => rfl
  | cons op ops ih =>
    obtain ⟨reply, alike⟩ := h.perform op
    rw [replies, replies, reply, ih alike]

theorem Alike.after (h : s.Alike u) (ops : List Op) : (s.after ops).Alike (u.after ops) := by
  induction ops generalizing s u with
  | nil => exact h
  | cons op ops ih => exact ih (h.perform op).2

theorem alike_of_isNew (h : s.IsNew) : s.Alike s := by
  cases s with
  | memory | table | limited => exact alike_self fun _ => Store.noConfusion
  | files f => exact .files ⟨rfl, rfl, h.2 ▸ fun _ hf => nomatch hf⟩

/-- A save that is refused leaves a store that is like the one before. -/
theorem Alike.refused (h : s.Alike s) (hr : (s.perform (.save c)).2 = .refused f) :
    s.Alike (s.perform (.save c)).1 := by
  cases s with
  | memory => cases hr
  | table t =>
    simp only [Store.perform, write, Store.save] at hr ⊢
    cases ht : t.save c with
    | error f => exact h
    | ok u =>
      rw [ht] at hr
      cases hr
  | files s =>
    cases h with
    | files h =>
      simp only [Store.perform, write] at hr ⊢
      cases hw : (s.write c).2 with
      | error f => exact .files (h.refused hw)
      | ok _ =>
        rw [hw] at hr
        cases hr
  | limited saved n hint =>
    cases n with
    | zero => exact h
    | succ n => cases hr

/-! ### Opening again -/

theorem isDurable_after (s : Store) (ops : List Op) : (s.after ops).isDurable = s.isDurable := by
  induction ops generalizing s with
  | nil => rfl
  | cons op ops ih => exact (ih (s.perform op).1).trans (isDurable_of_kindName (kindName_perform s op))

theorem reopened_of_isDurable (h : s.isDurable) : s.reopened = s := by
  cases s with
  | memory | limited => cases h
  | table | files => rfl

/-- Over whatever a store is kept: it answers as the log does where checkpoints are those that durable stores can hold;
    what it refuses to save changes nothing that it answers later; and neither does opening a durable store again. -/
theorem answers_as_log (new : s.IsNew) :
    (∀ ops, Admissible Log.empty [] ops → (.reopen ∈ ops → s.isDurable) → s.replies ops = Log.empty.replies ops) ∧
      (∀ before c f, ((s.after before).perform (.save c)).2 = .refused f → ∀ later,
        ((s.after before).perform (.save c)).1.replies later = (s.after before).replies later) ∧
      (s.isDurable → ∀ before later,
        ((s.after before).perform .reopen).1.replies later = (s.after before).replies later) := by
  refine ⟨fun ops ok stays => (holds_of_isNew new).replies_eq ok stays, ?_, ?_⟩
  · intro before c f hr later
    have alike := (alike_of_isNew new).after before
    exact (alike.refused hr).replies_eq later
  · intro durable before later
    have still : (s.after before).isDurable := (isDurable_after s before).trans durable
    show (s.after before).reopened.replies later = _
    rw [reopened_of_isDurable still]

/-! ### A thread that is made again -/

theorem length_perform_le (log : Log) (op : Op) (thread : String) :
    ((log.perform op).1 thread).length ≤ (log thread).length + 1 := by
  cases op with
  | save c =>
    rw [Log.perform_save]
    split
    · exact Nat.le_of_eq List.length_append
    · exact Nat.le_succ _
  | delete t =>
    rw [Log.perform_delete]
    split
    · exact Nat.zero_le _
    · exact Nat.le_succ _
  | load | list | reopen => exact Nat.le_succ _

/-- There are no more checkpoints than operations. -/
theorem length_after_le (log : Log) (ops : List Op) (thread : String) :
    (log.after ops thread).length ≤ (log thread).length + ops.length := by
  induction ops generalizing log with
  | nil => exact Nat.le_refl _
  | cons op ops ih =>
    have first := length_perform_le log op thread
    have rest : (log.after (op :: ops) thread).length ≤ _ := ih (log.perform op).1
    rw [List.length_cons]
    omega

/-- The start of a run. -/
def opening (n : Nat) (thread : String) : Checkpoint :=
  { thread := .str thread, graph := .str "g", node := .str "a", state := .mapping [], id := Surroundings.drawnId n }

theorem storable_opening (n : Nat) (h : Files.isDirectoryName thread) : (opening n thread).Storable where
  version := rfl
  id := ⟨n, rfl⟩
  thread := ⟨thread, rfl, h⟩
  graph := .str "g"
  node := .str "a"
  state := .mapping (fun _ he => nomatch he) List.nodup_nil fun _ he => nomatch he
  prompt _ hi := nomatch hi
  history _ hv := nomatch hv
  error := .null
  metadata := .mapping (fun _ he => nomatch he) List.nodup_nil fun _ he => nomatch he
  step := rfl
  timestamp := rfl

theorem isDirectoryName_t : Files.isDirectoryName "t" = true := by
  simp [Files.isDirectoryName, String.contains_char_eq]

theorem isDirectoryName_u : Files.isDirectoryName "u" = true := by
  simp [Files.isDirectoryName, String.contains_char_eq]

def remade : List Op :=
  [.save (opening 0 "t"), .save (opening 1 "u"), .save (opening 2 "t"), .reopen, .delete "t", .save (opening 3 "t"),
    .load "t", .list "u"]

theorem admissible_remade : Admissible Log.empty [] remade where
  storable := by
    simp only [remade, List.mem_cons, Op.save.injEq, reduceCtorEq, false_or, or_false, List.not_mem_nil]
    rintro c (rfl | rfl | rfl | rfl)
    · exact storable_opening 0 isDirectoryName_t
    · exact storable_opening 1 isDirectoryName_u
    · exact storable_opening 2 isDirectoryName_t
    · exact storable_opening 3 isDirectoryName_t
  distinct := by decide +kernel
  threads := by
    have names : ∀ op ∈ remade, ∀ t ∈ op.thread?, t = "t" ∨ t = "u" := by decide +kernel
    intro op hop t ht
    rcases names op hop t ht with rfl | rfl
    · exact isDirectoryName_t
    · exact isDirectoryName_u
  few before hb thread := by
    have count := length_after_le Log.empty before thread
    have short : before.length ≤ 8 := hb.length_le
    rw [show (Log.empty thread).length = 0 from rfl] at count
    omega

/-- The files of a thread that is deleted are numbered from the beginning again, and none is mistaken for another. -/
theorem answers_as_log_remade : (files { directory := "d" }).replies remade =
    [.saved, .saved, .saved, .reopened, .deleted 2, .saved, .latest (some (opening 3 "t")), .all [opening 1 "u"]] :=
  (answers_as_log (s := .files { directory := "d" }) ⟨rfl, rfl⟩).1 remade admissible_remade fun _ => rfl

/-! ### What durable stores do not read -/

/-- A checkpoint of a format that is not known. -/
def laterVersion : Checkpoint := { opening 0 "t" with version := .int 2 }

def written : Table := { rows := [({} : Table).rowFor laterVersion], next := 2 }

/-- A table takes a checkpoint of another version, and does not read it back. -/
theorem laterVersion_unread : laterVersion.state.IsJson ∧ laterVersion.error.IsJson ∧ laterVersion.metadata.IsJson ∧
    laterVersion.interrupt = none ∧ Files.isDirectoryName laterVersion.thread.text ∧
    (table {}).replies [.save laterVersion, .load "t"] =
      [.saved, .refused (.failure (.checkpoint "Unsupported checkpoint version 2 (expected 1)"))] ∧
    Log.empty.replies [.save laterVersion, .load "t"] = [.saved, .latest (some laterVersion)] := by
  have start := storable_opening 0 isDirectoryName_t
  refine ⟨start.state, start.error, start.metadata, rfl, isDirectoryName_t, ?_, rfl⟩
  have taken : (table {}).perform (.save laterVersion) = (table written, .saved) := rfl
  have alone : written.ofThread "t" = written.rows := List.mergeSort_singleton _
  have unread : written.load "t" = .error (.failure (.checkpoint "Unsupported checkpoint version 2 (expected 1)")) := by
    rw [Table.load, alone]
    rfl
  rw [replies, taken, replies, perform, Store.load, unread]
  rfl

end Workflow.Store
