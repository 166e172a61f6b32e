import Mathlib.Logic.Relation
import Workflow.Proofs.Limits
import Workflow.Proofs.Views

/-! # Stores in use

Engines of any graphs may share a store, each in surroundings of its own. All that they do to it is to write
checkpoints of the threads that they run, and to delete threads. So what it keeps under a thread is of that thread
(`Reached.owned`), and what it tells of a thread stays whatever is done with others (`tells_use`). -/

namespace Workflow

namespace Store

variable {s u v : Store} {c d : Checkpoint} {thread other : String} {n : Nat}

/-! ### What is kept under a thread -/

/-- Files stand in the directories of their threads. -/
def Housed : Store → Prop
  | .files f => ∀ x ∈ f.files, x.thread ∈ f.folders
  | _ => True

structure Owned (s : Store) : Prop where
  own : ∀ {thread c}, s.Reads thread c → c.thread = .str thread
  housed : s.Housed

theorem Housed.write (h : s.Housed) (c : Checkpoint) : (s.write c).1.Housed := by
  cases s with
  | memory => trivial
  | limited saved n => cases n <;> trivial
  | table t =>
    simp only [Store.write, Store.save]
    cases t.save c <;> trivial
  | files f =>
    have kept : ∀ x ∈ f.files, x.thread ∈ (f.withFolder c.thread.text).folders :=
      fun x hx => (Files.mem_withFolder _ _ _).mpr (.inl (h x hx))
    simp only [Store.write, Housed]
    rcases f.write_cases c with ⟨p, -, -, taken⟩ | ⟨_, -, -, left | left, -⟩
    · rw [taken]
      intro x hx
      rcases List.mem_append.mp hx with hx | hx
      · rw [Files.files_withFolder] at hx
        exact kept x (List.mem_filter.mp hx).1
      · rw [List.mem_singleton.mp hx]
        exact (Files.mem_withFolder _ _ _).mpr (.inr rfl)
    · rw [left]
      exact h
    · rw [left, Files.files_withFolder]
      exact kept

theorem Owned.write (h : s.Owned) (own : c.thread = .str thread) : (s.write c).1.Owned where
  own hd := by
    rcases reads_write own hd with hd | ⟨rfl, written⟩
    · exact h.own hd
    · exact written.thread own
  housed := h.housed.write c

theorem Owned.delete (h : s.Owned) (deleted : s.delete thread = .ok (u, n)) : u.Owned where
  own hd := h.own (reads_delete deleted hd).1
  housed := by
    cases s with
    | memory | table | limited =>
      cases deleted
      trivial
    | files f =>
      obtain rfl := delete_files deleted
      intro x hx
      obtain ⟨hx, differs⟩ := List.mem_filter.mp hx
      exact List.mem_filter.mpr ⟨h.housed x hx, differs⟩

/-- Nothing can be read under a thread of which nothing is told. -/
theorem Owned.not_reads (h : s.Owned) (none : s.load thread = .ok none) : ¬s.Reads thread c := by
  cases s with
  | memory saved | limited saved =>
    rintro ⟨hc, own⟩
    have empty : ofThread saved thread = [] := List.getLast?_eq_none_iff.mp (Except.ok.inj none)
    exact List.filter_eq_nil_iff.mp empty c hc (Checkpoint.isOf_iff.mpr own)
  | table t =>
    rintro ⟨r, hr, own, -⟩
    have mem : r ∈ t.ofThread thread := List.mem_mergeSort.mpr (List.mem_filter.mpr ⟨hr, beq_iff_eq.mpr own⟩)
    simp only [Store.load, Table.load] at none
    split at none
    · rename_i last
      cases read : Table.readRow _ <;> rw [read] at none <;> cases none
    · rename_i last
      rw [List.getLast?_eq_none_iff.mp last] at mem
      cases mem
  | files f =>
    rintro ⟨x, hx, own, -⟩
    have there : f.folders.contains thread = true := List.contains_iff_mem.mpr (own ▸ h.housed x hx)
    have mem : x ∈ f.ofThread thread := by
      rw [Files.ofThread, if_pos there]
      exact List.mem_mergeSort.mpr (List.mem_filter.mpr ⟨hx, beq_iff_eq.mpr own⟩)
    obtain ⟨_, -, none⟩ := bind_eq_ok.mp none
    split at none
    · obtain ⟨_, -, none⟩ := bind_eq_ok.mp none
      cases none
    · rename_i last
      rw [List.getLast?_eq_none_iff.mp last] at mem
      cases mem

/-! ### What is told of a thread -/

/-- The stores are of one kind, and have the same of the thread. -/
inductive SamePart (thread : String) : Store → Store → Prop
  | memory {saved saved' : List Checkpoint} (h : ofThread saved' thread = ofThread saved thread) :
      SamePart thread (.memory saved) (.memory saved')
  | limited {saved saved' : List Checkpoint} {m n : Nat} {hint : Option String}
      (h : ofThread saved' thread = ofThread saved thread) :
      SamePart thread (.limited saved m hint) (.limited saved' n hint)
  | table {t t' : Table} (h : part Row.thread t'.rows thread = part Row.thread t.rows thread) :
      SamePart thread (.table t) (.table t')
  | files {f f' : Files} (directory : f'.directory = f.directory) (folder : thread ∈ f'.folders ↔ thread ∈ f.folders)
      (h : part File.thread f'.files thread = part File.thread f.files thread) : SamePart thread (.files f) (.files f')

theorem SamePart.refl (thread : String) (s : Store) : SamePart thread s s := by
  cases s with
  | memory => exact .memory rfl
  | limited => exact .limited rfl
  | table => exact .table rfl
  | files => exact .files rfl .rfl rfl

theorem Files.part_put (f : Files) (x : File) (differs : thread ≠ x.thread) :
    part File.thread (f.put x).files thread = part File.thread f.files thread := by
  rw [Files.put, part_append, if_neg differs, part, List.filter_filter]
  refine List.filter_congr fun y _ => ?_
  by_cases hy : y.thread = thread
  · simp [hy, differs]
  · simp [hy]

/-- A write leaves what there is of other threads, whether it is taken or refused. -/
theorem samePart_write (own : c.thread = .str other) (differs : thread ≠ other) : SamePart thread s (s.write c).1 := by
  have text : thread ≠ c.thread.text := by rwa [own]
  have appended (saved : List Checkpoint) : ofThread (saved ++ [c]) thread = ofThread saved thread := by
    rw [ofThread_append, Checkpoint.isOf_eq own, beq_false_of_ne differs.symm]
    exact List.append_nil _
  cases s with
  | memory saved => exact .memory (appended saved)
  | limited saved n =>
    cases n with
    | zero => exact .refl thread _
    | succ n => exact .limited (appended saved)
  | table t =>
    simp only [Store.write, Store.save]
    rcases t.save_cases c with ⟨p, -, -, taken⟩ | ⟨f, refused, -⟩
    · rw [taken]
      exact .table (by rw [Table.added, part_append, if_neg text])
    · rw [refused]
      exact .refl thread _
  | files f =>
    have folder : thread ∈ (f.withFolder c.thread.text).folders ↔ thread ∈ f.folders := by
      rw [Files.mem_withFolder, or_iff_left text]
    simp only [Store.write]
    rcases f.write_cases c with ⟨p, -, -, taken⟩ | ⟨_, -, -, left | left, -⟩
    · rw [taken]
      refine .files (Files.directory_withFolder _ _) folder ?_
      rw [Files.added, Files.part_put _ _ text, Files.files_withFolder]
    · rw [left]
      exact .refl thread _
    · -- The directory of a refused file is made all the same.
      rw [left]
      exact .files (Files.directory_withFolder _ _) folder (by rw [Files.files_withFolder])

theorem samePart_delete (differs : thread ≠ other) (deleted : s.delete other = .ok (u, n)) : SamePart thread s u := by
  cases s with
  | memory saved =>
    cases deleted
    exact .memory (ofThread_without_of_ne saved differs)
  | limited saved =>
    cases deleted
    exact .limited (ofThread_without_of_ne saved differs)
  | table t =>
    cases deleted
    exact .table (by rw [part_delete, if_neg differs])
  | files f =>
    obtain rfl := delete_files deleted
    exact .files rfl (by simp [Files.dropped, differs]) (by rw [Files.dropped, part_delete, if_neg differs])

/-- The stores tell the same of the thread. -/
structure Tells (thread : String) (s u : Store) : Prop where
  list : u.list thread = s.list thread
  load : u.load thread = s.load thread

theorem Tells.refl (thread : String) (s : Store) : Tells thread s s := ⟨rfl, rfl⟩

theorem Tells.trans (h : Tells thread s u) (h' : Tells thread u v) : Tells thread s v :=
  ⟨h'.list.trans h.list, h'.load.trans h.load⟩

theorem SamePart.tells (h : SamePart thread s u) : Tells thread s u := by
  cases h with
  | memory h | limited h => constructor <;> simp only [Store.list, Store.load, h]
  | @table t t' h =>
    have rows : t'.ofThread thread = t.ofThread thread := congrArg (List.mergeSort · _) h
    constructor <;> simp only [Store.list, Store.load, Table.list, Table.load, rows]
  | @files f f' directory folder h =>
    have files : f'.ofThread thread = f.ofThread thread := by
      have sorted := congrArg (List.mergeSort · fun x y : File => decide (x.name ≤ y.name)) h
      simp only [Files.ofThread, List.contains_iff_mem, folder]
      split
      · exact sorted
      · rfl
    have read : f'.readFile = f.readFile := Files.readFile_eq_of_directory directory
    constructor <;> simp only [Store.list, Store.load, Files.list, Files.load, files, read]

end Store

/-! ### Engines that share a store -/

namespace Surroundings

variable {w : Surroundings} {graph thread other : String} {snapshot : (id timestamp : Value) → Checkpoint}

theorem Draws.own (draws : w.Draws graph thread snapshot) (h : w.store.Owned) (id timestamp : Value) :
    (snapshot id timestamp).thread = .str thread := by
  cases draws with
  | run own => exact congrArg Value.str own
  | failure load f =>
    have own := h.own (Store.reads_of_load load)
    exact own

theorem stable_owned (graph thread : String) : Stock.Stable graph thread fun x => x.store.Owned where
  save draws h := h.write (draws.own h _ _)
  logged _ h := h
  deleted h deleted := h.delete deleted

/-- What is told of a thread stays whatever is written of others. -/
theorem stable_tells (s : Store) (graph : String) (differs : thread ≠ other) :
    Stock.Stable graph other fun x => x.store.Owned ∧ Store.Tells thread s x.store where
  save draws h := ⟨h.1.write (draws.own h.1 _ _), h.2.trans (Store.samePart_write (draws.own h.1 _ _) differs).tells⟩
  logged _ h := h
  deleted h deleted := ⟨h.1.delete deleted, h.2.trans (Store.samePart_delete differs deleted).tells⟩

end Surroundings

namespace Engine

variable {g : Engine} {w : Surroundings} {u : Use} {Q : Store → Prop}

/-- What is written of a thread and deleted of it keeps what all uses of the thread keep. -/
theorem stable_use (h : Stock.Stable g.definition.name u.thread fun x => Q x.store) (owned : ∀ {s}, Q s → s.Owned)
    (hw : Q w.store) : Q (g.use w u).1.store := by
  cases u with
  | ask a =>
    have own : ∀ {x : Stock} {c}, Q x.store → x.store.load a.thread = .ok (some c) → c.thread = .str a.thread :=
      fun hx last => (owned hx).own (Store.reads_of_load last)
    exact stable_answer (Surroundings.stableCalls_of_stock h own a.observers) hw
  | subscribe => exact hw

theorem use_request (g : Engine) (w : Surroundings) (request : Request) :
    (g.use w (.ask (.request request))).1 = (g.serve w request).1 := by
  cases request <;> rfl

theorem tells_use {thread : String} (h : w.store.Owned) (differs : thread ≠ u.thread) :
    Store.Tells thread w.store (g.use w u).1.store :=
  (stable_use (Surroundings.stable_tells w.store _ differs) And.left ⟨h, .refl thread _⟩).2

/-- A request leaves what is told of other threads. -/
theorem tells_serve {thread : String} {request : Request} (h : w.store.Owned) (differs : thread ≠ request.thread) :
    Store.Tells thread w.store (g.serve w request).1.store := by
  rw [← use_request]
  exact tells_use h differs

end Engine

namespace Store

/-- The store is of an engine that is used, of any graph and in any surroundings, in a way that is allowed. -/
def Evolves (allowed : Use → Prop) (s u : Store) : Prop :=
  ∃ (g : Engine) (w : Surroundings) (use : Use), allowed use ∧ w.store = s ∧ (g.use w use).1.store = u

/-- Nothing was written to the store yet. -/
def IsUnused (s : Store) : Prop := s.IsNew ∨ ∃ saves hint, s = .limited [] saves hint

/-- Stores that engines have been used with, and that have been swept in between. -/
inductive Reached : Store → Prop
  | unused {s : Store} (h : s.IsUnused) : Reached s
  | evolved {s u : Store} (h : Reached s) (step : s.Evolves (fun _ => True) u) : Reached u
  | swept {t : Table} (h : Reached (.table t)) (now hours : Float) (perThread : Int) :
      Reached (.table (t.sweep now hours perThread).1)

theorem Reached.serve {g : Engine} {w : Surroundings} (h : w.store.Reached) (request : Request) :
    (g.serve w request).1.store.Reached :=
  h.evolved ⟨g, w, .ask (.request request), trivial, rfl, by rw [g.use_request]⟩

variable {s u : Store}

theorem Owned.evolved {allowed : Use → Prop} (h : s.Owned) (step : s.Evolves allowed u) : u.Owned := by
  obtain ⟨g, w, use, -, rfl, rfl⟩ := step
  exact Engine.stable_use (Surroundings.stable_owned _ _) id h

theorem owned_of_isUnused (h : s.IsUnused) : s.Owned := by
  rcases h with h | ⟨saves, hint, rfl⟩
  · refine ⟨fun hc => absurd hc (not_reads_of_isNew h), ?_⟩
    cases s with
    | memory | table | limited => trivial
    | files f =>
      rw [Housed, h.2]
      exact fun _ hx => absurd hx List.not_mem_nil
  · exact ⟨fun hc => absurd hc.1 List.not_mem_nil, trivial⟩

theorem reads_sweep {t : Table} {now hours : Float} {perThread : Int} {thread : String} {c : Checkpoint}
    (h : (table (t.sweep now hours perThread).1).Reads thread c) : (table t).Reads thread c := by
  obtain ⟨p, swept⟩ := t.filter_of_sweep now hours perThread
  rw [swept] at h
  obtain ⟨r, hr, read⟩ := h
  exact ⟨r, (List.mem_filter.mp hr).1, read⟩

theorem Reached.owned (h : s.Reached) : s.Owned := by
  induction h with
  | unused h => exact owned_of_isUnused h
  | evolved _ step ih => exact ih.evolved step
  | swept _ now hours perThread ih => exact ⟨fun hc => ih.own (reads_sweep hc), trivial⟩

theorem Reached.evolves {allowed : Use → Prop} (h : s.Reached) (steps : Relation.ReflTransGen (Evolves allowed) s u) :
    u.Reached := by
  induction steps with
  | refl => exact h
  | tail _ step ih =>
    obtain ⟨g, w, use, -, same, left⟩ := step
    exact ih.evolved ⟨g, w, use, trivial, same, left⟩

theorem evolves_useAll {allowed : Use → Prop} {g : Engine} {w : Surroundings} {uses : List Use}
    (h : ∀ use ∈ uses, allowed use) :
    Relation.ReflTransGen (Evolves allowed) w.store (g.useAll w uses).1.store := by
  induction uses generalizing w with
  | nil => exact .refl
  | cons use uses ih =>
    obtain ⟨first, rest⟩ := List.forall_mem_cons.mp h
    exact .head ⟨g, w, use, first, rfl, rfl⟩ (ih rest)

end Store

end Workflow
