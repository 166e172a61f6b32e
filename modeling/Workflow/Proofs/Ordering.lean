import Mathlib.Data.List.Basic
import Mathlib.Data.List.Forall2
import Workflow.Proofs.Kept
import Workflow.Proofs.Names
import Workflow.Store.Basic

/-! # The order in which stores keep

The rows of a table are numbered (`Table.Ordered`), and files are named after how many there were before
(`Files.Numbered`), so what a store tells of a thread stands in the order of saving. A save either is refused, for one
of a few reasons, or puts one row or file after all others (`Table.save_cases`, `Files.write_cases`). -/

namespace Workflow

/-- A checkpoint cannot be kept or read. -/
def Fault.IsCheckpoint (f : Fault) : Prop := ∃ failure : Failure, f = .failure failure ∧ failure.kind = .checkpoint

/-- The last elements of related lists are related. -/
theorem getLast?_of_forall₂ {α β : Type} {R : α → β → Prop} {xs : List α} {ys : List β} (h : List.Forall₂ R xs ys) :
    Option.Rel R xs.getLast? ys.getLast? := by
  induction h with
  | nil => exact .none
  | @cons x y xs ys h _ ih =>
    rw [List.getLast?_cons, List.getLast?_cons]
    generalize xs.getLast? = a at ih ⊢
    generalize ys.getLast? = b at ih ⊢
    cases ih with
    | none => exact .some h
    | some h => exact .some h

namespace Store

variable {c : Checkpoint} {p : Payload} {f : Fault}

/-- No payload can be made of it, which is told as a failure of the checkpoint. -/
theorem Payload.isCheckpoint_of_error (h : ofCheckpoint c = .error f) : f.IsCheckpoint := by
  rw [ofCheckpoint] at h
  split at h <;> cases h
  exact ⟨_, rfl, rfl⟩

/-! ### What threads have of a list -/

section Parts
variable {α : Type} {key : α → String}

/-- What stands under a thread. -/
def part (key : α → String) (xs : List α) (thread : String) : List α := xs.filter fun x => key x == thread

theorem part_append (xs : List α) (x : α) (other : String) :
    part key (xs ++ [x]) other = if other = key x then part key xs other ++ [x] else part key xs other := by
  rw [part, List.filter_append, List.filter_singleton]
  by_cases same : other = key x
  · rw [same, beq_self_eq_true, if_pos rfl]
    rfl
  · rw [beq_false_of_ne (Ne.symm same), if_neg same]
    exact List.append_nil _

theorem part_delete (xs : List α) (thread other : String) :
    part key (xs.filter fun x => key x != thread) other = if other = thread then [] else part key xs other := by
  rw [part, List.filter_filter]
  split
  · rename_i same
    rw [same]
    refine List.filter_eq_nil_iff.mpr fun x _ => ?_
    simp
  · rename_i differs
    refine List.filter_congr fun x _ => ?_
    by_cases hx : key x = other
    · simp [hx, differs]
    · simp [hx]

end Parts

/-! ### Rows -/

namespace Table

variable {t : Table}

/-- Numbers grow, and the next one is greater than all. -/
structure Ordered (t : Table) : Prop where
  rows : t.rows.Pairwise fun r s => r.number < s.number
  next : ∀ r ∈ t.rows, r.number < t.next

theorem Ordered.ofThread_eq (h : t.Ordered) (thread : String) :
    t.ofThread thread = part Row.thread t.rows thread := by
  -- Rows stand in the order of their numbers already, so sorting them moves none.
  refine List.mergeSort_of_pairwise ?_
  refine (h.rows.filter _).imp ?_
  intro r s hlt
  exact decide_eq_true (Nat.le_of_lt hlt)

theorem Ordered.filter (h : t.Ordered) (p : Row → Bool) : Ordered { t with rows := t.rows.filter p } :=
  ⟨h.rows.filter p, fun r hr => h.next r (List.mem_filter.mp hr).1⟩

theorem Ordered.map (h : t.Ordered) {g : Row → Row} (same : ∀ r, (g r).number = r.number) :
    Ordered { t with rows := t.rows.map g } := by
  constructor
  · refine List.pairwise_map.mpr (h.rows.imp ?_)
    intro r s hlt
    rw [same, same]
    exact hlt
  · rw [List.forall_mem_map]
    intro r hr
    rw [same]
    exact h.next r hr

/-- Sweeping takes rows away, if anything. -/
theorem filter_of_sweepThreads {limit : Float} {n deleted k : Nat} {threads : List String} {u : Table}
    (h : sweepThreads limit n t deleted threads = .ok (u, k)) : ∃ p, u = { t with rows := t.rows.filter p } := by
  induction threads generalizing t deleted with
  | nil =>
    cases h
    exact ⟨fun _ => true, by rw [List.filter_true]⟩
  | cons thread threads ih =>
    obtain ⟨⟨v, d⟩, first, rest⟩ := bind_eq_ok.mp h
    obtain ⟨p, rfl⟩ := ih rest
    simp only [sweepThread] at first
    split at first
    · cases first
    · cases first
      exact ⟨_, congrArg (fun rows => { t with rows }) List.filter_filter⟩

theorem filter_of_sweep (t : Table) (now hours : Float) (perThread : Int) :
    ∃ p, (t.sweep now hours perThread).1 = { t with rows := t.rows.filter p } := by
  rw [sweep, sweepUntil]
  split
  · rename_i swept
    exact filter_of_sweepThreads swept
  · exact ⟨fun _ => true, by rw [List.filter_true]⟩

theorem Ordered.sweep (h : t.Ordered) (now hours : Float) (perThread : Int) : (t.sweep now hours perThread).1.Ordered := by
  obtain ⟨p, swept⟩ := t.filter_of_sweep now hours perThread
  rw [swept]
  exact h.filter p

/-- The table with one row more. -/
def added (t : Table) (c : Checkpoint) (p : Payload) : Table :=
  { t with
    rows := t.rows ++ [⟨t.next, c.id.text, c.thread.text, timeOf c.timestamp, p⟩]
    next := t.next + 1 }

theorem Ordered.added (h : t.Ordered) (c : Checkpoint) (p : Payload) : (t.added c p).Ordered := by
  constructor
  · refine List.pairwise_append.mpr ⟨h.rows, List.pairwise_singleton _ _, ?_⟩
    intro r hr s hs
    rw [List.mem_singleton.mp hs]
    exact h.next r hr
  · simp only [Table.added, List.forall_mem_append, List.forall_mem_singleton]
    exact ⟨fun r hr => Nat.lt_succ_of_lt (h.next r hr), Nat.lt_succ_self t.next⟩

/-- The numbers of the checkpoint fit the columns. -/
def Fits (c : Checkpoint) : Prop := fitsColumn c.step ∧ exceedsTime c.timestamp = false

structure HasRoom (t : Table) (c : Checkpoint) : Prop where
  fits : Fits c
  timed : takesTime c.timestamp = true
  fresh : ∀ r ∈ t.rows, r.id ≠ c.id.text

theorem save_cases (t : Table) (c : Checkpoint) :
    (∃ p, Payload.ofCheckpoint c = .ok p ∧ t.HasRoom c ∧ t.save c = .ok (t.added c p)) ∨
      ∃ f, t.save c = .error f ∧ (f.IsCheckpoint ∨ f = tooLarge ∧ ¬ Fits c) ∧
        ∀ p, Payload.ofCheckpoint c = .ok p → ¬ t.HasRoom c := by
  cases hp : Payload.ofCheckpoint c with
  | error f =>
    refine .inr ⟨f, bind_eq_error.mpr (.inl hp), .inl (Payload.isCheckpoint_of_error hp), ?_⟩
    exact fun _ h => nomatch h
  | ok p =>
    simp only [Table.save, hp, Except.ok.injEq, exists_eq_left', forall_eq']
    dsimp only [bind, Except.bind]
    split
    · rename_i big
      have unfit : ¬ Fits c := by
        rintro ⟨hs, ht⟩
        rw [hs, ht] at big
        cases big
      exact .inr ⟨tooLarge, rfl, .inr ⟨rfl, unfit⟩, fun room => unfit room.fits⟩
    rename_i small
    split
    · rename_i null
      refine .inr ⟨_, rfl, .inl ⟨_, rfl, rfl⟩, fun room => ?_⟩
      rw [room.timed] at null
      cases null
    rename_i timed
    split
    · rename_i taken
      refine .inr ⟨_, rfl, .inl ⟨_, rfl, rfl⟩, fun room => ?_⟩
      obtain ⟨r, hr, same⟩ := List.any_eq_true.mp taken
      exact room.fresh r hr (eq_of_beq same)
    · rename_i free
      have fits : Fits c := by simpa [Fits] using small
      have fresh : ∀ r ∈ t.rows, r.id ≠ c.id.text := by simpa using free
      exact .inl ⟨⟨fits, by simpa using timed, fresh⟩, rfl⟩

end Table

/-! ### Files -/

namespace Files

variable {s : Files} {thread : String}

theorem checkThread_ok (ht : isDirectoryName thread) : checkThread thread = .ok () := if_pos ht

theorem files_withFolder (s : Files) (thread : String) : (s.withFolder thread).files = s.files := by
  rw [withFolder]
  split <;> rfl

theorem directory_withFolder (s : Files) (thread : String) : (s.withFolder thread).directory = s.directory := by
  rw [withFolder]
  split <;> rfl

theorem mem_withFolder (s : Files) (thread other : String) :
    other ∈ (s.withFolder thread).folders ↔ other ∈ s.folders ∨ other = thread := by
  rw [withFolder]
  split
  · rename_i there
    refine ⟨.inl, ?_⟩
    rintro (h | rfl)
    · exact h
    · exact List.contains_iff_mem.mp there
  · exact List.mem_append.trans (or_congr_right List.mem_singleton)

/-- What is left when a thread is deleted. -/
def dropped (s : Files) (thread : String) : Files :=
  { s with
    folders := s.folders.filter fun t => t != thread
    files := s.files.filter fun f => f.thread != thread }

/-- The files of each thread are named after how many there were before, and stand in its directory. -/
structure Numbered (s : Files) : Prop where
  named : ∀ thread, ∃ ids : List String, (part File.thread s.files thread).map File.name = ids.mapIdx fileName
  housed : ∀ f ∈ s.files, f.thread ∈ s.folders

theorem Numbered.counted (h : s.Numbered) (thread : String) : ∃ ids : List String,
    (part File.thread s.files thread).length = ids.length ∧
      (part File.thread s.files thread).map File.name = ids.mapIdx fileName := by
  obtain ⟨ids, named⟩ := h.named thread
  exact ⟨ids, by rw [← List.length_map File.name, named, List.length_mapIdx], named⟩

/-- A thread without a directory has no files. -/
theorem Numbered.ofThread_eq_mergeSort (h : s.Numbered) (thread : String) :
    s.ofThread thread = (part File.thread s.files thread).mergeSort fun f g => decide (f.name ≤ g.name) := by
  rw [ofThread]
  split
  · rfl
  · rename_i absent
    have none : part File.thread s.files thread = [] := by
      refine List.filter_eq_nil_iff.mpr fun f hf same => absent ?_
      exact List.contains_iff_mem.mpr (eq_of_beq same ▸ h.housed f hf)
    rw [none, List.mergeSort_nil]

theorem Numbered.length_ofThread (h : s.Numbered) (thread : String) :
    (s.ofThread thread).length = (part File.thread s.files thread).length := by
  rw [h.ofThread_eq_mergeSort, List.length_mergeSort]

theorem Numbered.ofThread_eq (h : s.Numbered) (few : (part File.thread s.files thread).length ≤ 10 ^ 8) :
    s.ofThread thread = part File.thread s.files thread := by
  obtain ⟨ids, count, named⟩ := h.counted thread
  -- Names are compared as texts: they are in the order of writing as long as eight digits number them.
  have sorted : ((part File.thread s.files thread).map File.name).Pairwise fun m n => decide (m ≤ n) = true := by
    rw [named, List.pairwise_iff_getElem]
    intro i j hi hj hij
    rw [List.getElem_mapIdx, List.getElem_mapIdx, decide_eq_true_eq]
    rw [List.length_mapIdx, ← count] at hj
    exact Std.le_of_not_ge fun hge => hge (fileName_lt hij (Nat.lt_of_lt_of_le hj few) _ _)
  rw [h.ofThread_eq_mergeSort]
  exact List.mergeSort_of_pairwise (List.pairwise_map.mp sorted)

/-- A file that comes after all others of its thread takes the place of none. -/
theorem Numbered.put_files (h : s.Numbered) {f : File} {id : String}
    (name : f.name = fileName (part File.thread s.files f.thread).length id) : (s.put f).files = s.files ++ [f] := by
  refine congrArg (· ++ [f]) (List.filter_eq_self.mpr ?_)
  intro g hg
  rw [Bool.not_eq_true', Bool.and_eq_false_imp]
  intro same
  obtain ⟨ids, count, named⟩ := h.counted f.thread
  have mem : g.name ∈ (part File.thread s.files f.thread).map File.name :=
    List.mem_map_of_mem (List.mem_filter.mpr ⟨hg, same⟩)
  rw [named, List.mem_mapIdx] at mem
  obtain ⟨i, hi, earlier⟩ := mem
  refine beq_false_of_ne fun eq => ?_
  have number := eq_of_fileName_eq (earlier.trans (eq.trans name))
  omega

theorem Numbered.put (h : s.Numbered) {f : File} {id : String}
    (name : f.name = fileName (part File.thread s.files f.thread).length id) (folder : f.thread ∈ s.folders) :
    (s.put f).Numbered := by
  constructor
  · intro other
    obtain ⟨ids, count, named⟩ := h.counted other
    rw [h.put_files name, part_append]
    split
    · rename_i same
      subst same
      exact ⟨ids ++ [id], by rw [List.map_append, named, List.mapIdx_concat, ← count, ← name]; rfl⟩
    · exact ⟨ids, named⟩
  · rw [h.put_files name]
    simp only [List.forall_mem_append, List.forall_mem_singleton]
    exact ⟨h.housed, folder⟩

theorem Numbered.withFolder (h : s.Numbered) (thread : String) : (s.withFolder thread).Numbered where
  named := by
    rw [files_withFolder]
    exact h.named
  housed f hf := by
    rw [files_withFolder] at hf
    exact (mem_withFolder s thread f.thread).mpr (.inl (h.housed f hf))

theorem Numbered.dropped (h : s.Numbered) (thread : String) : (s.dropped thread).Numbered where
  named other := by
    show ∃ ids : List String, (part File.thread (s.files.filter fun f => f.thread != thread) other).map _ = _
    rw [part_delete]
    split
    · exact ⟨[], rfl⟩
    · exact h.named other
  housed f hf := by
    obtain ⟨hf, differs⟩ := List.mem_filter.mp hf
    exact List.mem_filter.mpr ⟨h.housed f hf, differs⟩

theorem Numbered.map (h : s.Numbered) {g : File → File} (same : ∀ f, (g f).thread = f.thread ∧ (g f).name = f.name) :
    Numbered { s with files := s.files.map g } where
  named thread := by
    obtain ⟨ids, named⟩ := h.named thread
    refine ⟨ids, ?_⟩
    have parts : part File.thread (s.files.map g) thread = (part File.thread s.files thread).map g := by
      rw [part, List.filter_map, part]
      refine congrArg _ (List.filter_congr fun f _ => ?_)
      rw [Function.comp_apply, (same f).1]
    rw [parts, List.map_map, ← named]
    exact List.map_congr_left fun f _ => (same f).2
  housed := by
    rw [List.forall_mem_map]
    intro f hf
    rw [(same f).1]
    exact h.housed f hf

/-- The thread can be a directory, and the id can be part of the name of a file. -/
def HasPlace (c : Checkpoint) : Prop := isDirectoryName c.thread.text ∧ c.id.text.contains '/' = false

/-- The file that a payload is put into. -/
def fileOf (s : Files) (c : Checkpoint) (p : Payload) : File :=
  ⟨c.thread.text, fileName (s.ofThread c.thread.text).length c.id.text, p⟩

/-- The store with one file more. -/
def added (s : Files) (c : Checkpoint) (p : Payload) : Files :=
  (s.withFolder c.thread.text).put ((s.withFolder c.thread.text).fileOf c p)

theorem Numbered.name_fileOf (h : s.Numbered) (c : Checkpoint) (p : Payload) :
    (s.fileOf c p).name = fileName (part File.thread s.files c.thread.text).length c.id.text := by
  rw [fileOf, h.length_ofThread]

theorem Numbered.added (h : s.Numbered) (c : Checkpoint) (p : Payload) : (s.added c p).Numbered :=
  (h.withFolder _).put ((h.withFolder _).name_fileOf c p) ((mem_withFolder _ _ _).mpr (.inr rfl))

theorem Numbered.files_added (h : s.Numbered) (c : Checkpoint) (p : Payload) :
    (s.added c p).files = s.files ++ [(s.withFolder c.thread.text).fileOf c p] := by
  rw [Files.added, (h.withFolder _).put_files ((h.withFolder _).name_fileOf c p), files_withFolder]

theorem write_cases (s : Files) (c : Checkpoint) :
    (∃ p, Payload.ofCheckpoint c = .ok p ∧ HasPlace c ∧ s.write c = (s.added c p, .ok ())) ∨
      ∃ f, (s.write c).2 = .error f ∧ f.IsCheckpoint ∧
        ((s.write c).1 = s ∨ (s.write c).1 = s.withFolder c.thread.text) ∧
        ∀ p, Payload.ofCheckpoint c = .ok p → ¬ HasPlace c := by
  rw [Files.write]
  cases hp : Payload.ofCheckpoint c with
  | error f => exact .inr ⟨f, rfl, Payload.isCheckpoint_of_error hp, .inl rfl, fun _ h => nomatch h⟩
  | ok p =>
    by_cases ht : isDirectoryName c.thread.text
    · rw [checkThread_ok ht]
      dsimp only
      split
      · rename_i slash
        refine .inr ⟨_, rfl, ⟨_, rfl, rfl⟩, .inr rfl, fun _ _ place => ?_⟩
        rw [place.2] at slash
        cases slash
      · rename_i whole
        exact .inl ⟨p, rfl, ⟨ht, Bool.eq_false_iff.mpr whole⟩, rfl⟩
    · rw [checkThread, if_neg ht]
      exact .inr ⟨_, rfl, ⟨_, rfl, rfl⟩, .inl rfl, fun _ _ place => ht place.1⟩

end Files

/-- A store of files that deletes a thread drops its files with its directory. -/
theorem delete_files {s : Files} {u : Store} {thread : String} {n : Nat}
    (deleted : (files s).delete thread = .ok (u, n)) : u = files (s.dropped thread) := by
  simp only [Store.delete, Files.delete] at deleted
  cases named : Files.checkThread thread <;> rw [named] at deleted <;> cases deleted
  rfl

end Store

end Workflow
