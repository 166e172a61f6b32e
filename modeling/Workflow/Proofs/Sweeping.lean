import Mathlib.Data.List.Perm.Subperm
import Workflow.Proofs.Abreast
import Workflow.Proofs.Ordering
import Workflow.Proofs.Views

/-! # Sweeping

A sweep goes from thread to thread. It lists the last rows of the thread, and deletes what is not listed and what is
too old, but for the latest row. What is left of a table in the end is told by `Table.retained`
(`Table.Ordered.sweepUntil`), and nothing depends on the rest. A table may shed rows, as long as each thread keeps its
last one (`Table.Sheds`). What is read of a thread to go on with it is its last row alone, so
engines that use the table and the one that has shed rows do the same and answer the same, but for histories
(`Engine.useAll_sheds`). -/

namespace Workflow

namespace Store.Table

variable {t t' : Table} {limit : Float} {n : Nat} {rows kept : List Row} {thread : String}

/-! ### What is retained -/

/-- The last row, after those of the last `n` that are not older than the limit. -/
def retained (limit : Float) (n : Nat) (rows : List Row) : List Row :=
  ((rows.dropLast.drop (rows.length - n)).filter fun r => !isOlder limit r.timestamp) ++ rows.getLast?.toList

@[simp] theorem retained_nil (limit : Float) (n : Nat) : retained limit n [] = [] := by simp [retained]

theorem retained_concat (limit : Float) (n : Nat) (init : List Row) (r : Row) : retained limit n (init ++ [r]) =
    ((init.drop (init.length + 1 - n)).filter fun r => !isOlder limit r.timestamp) ++ [r] := by
  rw [retained, List.dropLast_concat, List.getLast?_concat, List.length_append]
  rfl

theorem getLast?_retained (limit : Float) (n : Nat) (rows : List Row) :
    (retained limit n rows).getLast? = rows.getLast? := by
  rcases List.eq_nil_or_concat rows with rfl | ⟨init, r, rfl⟩
  · simp
  · rw [List.concat_eq_append, retained_concat, List.getLast?_concat, List.getLast?_concat]

/-- What is retained once is retained again. -/
theorem retained_retained (limit : Float) (n : Nat) (rows : List Row) :
    retained limit n (retained limit n rows) = retained limit n rows := by
  rcases List.eq_nil_or_concat rows with rfl | ⟨init, r, rfl⟩
  · simp
  · rw [List.concat_eq_append, retained_concat, retained_concat]
    have few := List.length_filter_le (fun r => !isOlder limit r.timestamp) (init.drop (init.length + 1 - n))
    rw [List.length_drop] at few
    generalize left : (init.drop (init.length + 1 - n)).filter (fun r => !isOlder limit r.timestamp) = xs at few
    have all : xs.drop (xs.length + 1 - n) = xs := by
      rcases Nat.eq_zero_or_pos n with rfl | some
      · have none : xs = [] := List.eq_nil_of_length_eq_zero (by omega)
        rw [none, List.drop_nil]
      · rw [show xs.length + 1 - n = 0 by omega, List.drop_zero]
    rw [all, ← left, List.filter_filter]
    simp

/-! ### Sweeps -/

/-- Rows that are numbered are found in a part of them by their numbers. -/
theorem filter_numbers (numbered : rows.Pairwise fun r s => r.number < s.number) (part : kept.Sublist rows) :
    (rows.filter fun r => kept.any fun s => s.number == r.number) = kept := by
  induction part with
  | slnil => rfl
  | @cons kept rows r part ih =>
    obtain ⟨first, rest⟩ := List.pairwise_cons.mp numbered
    have gone : (kept.any fun s => s.number == r.number) = false := by
      refine List.any_eq_false.mpr fun s hs => ?_
      have later := first s (part.mem hs)
      simp only [beq_iff_eq]
      omega
    rw [List.filter_cons, gone, if_neg Bool.false_ne_true]
    exact ih rest
  | @cons_cons kept rows r part ih =>
    obtain ⟨first, rest⟩ := List.pairwise_cons.mp numbered
    rw [List.filter_cons, List.any_cons, beq_self_eq_true, Bool.true_or, if_pos rfl]
    congr 1
    refine Eq.trans (List.filter_congr fun s hs => ?_) (ih rest)
    have later := first s hs
    rw [List.any_cons, beq_false_of_ne (by omega), Bool.false_or]

/-- The rows of a thread that are listed are its last ones. -/
theorem Ordered.contains_keepList (h : t.Ordered) (thread : String) (n k : Nat) :
    (t.keepList thread n).contains k = ((part Row.thread t.rows thread).drop
      ((part Row.thread t.rows thread).length - n)).any fun r => r.number == k := by
  rw [keepList, h.ofThread_eq, List.take_reverse, List.map_reverse, List.contains_reverse, List.contains_eq_any_beq,
    List.any_map]
  exact congrArg (List.any _) (funext fun r => BEq.comm)

/-- The rows of a thread, all but the last one and those that are listed and not too old being deleted. -/
theorem filter_isSwept (numbered : rows.Pairwise fun r s => r.number < s.number) (own : ∀ r ∈ rows, r.thread = thread)
    {last : Row} (latest : rows.getLast? = some last) {keep : List Nat} (some : 0 < n)
    (listed : ∀ k, keep.contains k = (rows.drop (rows.length - n)).any fun r => r.number == k) :
    rows.filter (fun r => !isSwept thread last.number keep limit r) = retained limit n rows := by
  obtain ⟨init, rfl⟩ := List.getLast?_eq_some_iff.mp latest
  obtain ⟨k, size⟩ : ∃ k, k = init.length + 1 - n ∧ k ≤ init.length := ⟨_, rfl, by omega⟩
  have tail : (init ++ [last]).drop ((init ++ [last]).length - n) = init.drop k ++ [last] := by
    rw [List.length_append, List.length_singleton, ← size.1, List.drop_append_of_le_length size.2]
  have earlier : ∀ r ∈ init, r.number < last.number := fun r hr =>
    (List.pairwise_append.mp numbered).2.2 r hr last (List.mem_singleton_self last)
  -- Among the rows before the last one, those that are listed are those from a position on.
  have kept : init.filter (fun r => keep.contains r.number) = init.drop k := by
    have all := filter_numbers numbered (List.drop_sublist ((init ++ [last]).length - n) (init ++ [last]))
    simp only [← listed] at all
    rw [tail, List.filter_append, List.filter_singleton, listed, tail] at all
    simpa using all
  have others : init.filter (fun r => !isSwept thread last.number keep limit r) =
      init.filter fun r => (!isOlder limit r.timestamp) && keep.contains r.number := by
    refine List.filter_congr fun r hr => ?_
    have inner : (r.number != last.number) = true := bne_iff_ne.mpr (Nat.ne_of_lt (earlier r hr))
    rw [isSwept, own r (List.mem_append_left _ hr), beq_self_eq_true, inner, Bool.true_and, Bool.true_and, Bool.not_or,
      Bool.not_not, Bool.and_comm]
  have stays : (!isSwept thread last.number keep limit last) = true := by simp [isSwept]
  rw [retained_concat, List.filter_append, others, ← List.filter_filter, kept, size.1, List.filter_singleton, stays]
  rfl

/-- What sweeping some threads makes of a table: these threads have what is retained of them, and all others what they
    had. -/
structure Swept (limit : Float) (n : Nat) (threads : List String) (t t' : Table) (deleted : Nat) : Prop where
  same : t' = { t with rows := t'.rows }
  fewer : t'.rows.Sublist t.rows
  count : t'.rows.length + deleted = t.rows.length
  parts : ∀ thread, part Row.thread t'.rows thread =
    if thread ∈ threads then retained limit n (part Row.thread t.rows thread) else part Row.thread t.rows thread

theorem Swept.ordered {threads : List String} {deleted : Nat} (h : Swept limit n threads t t' deleted)
    (order : t.Ordered) : t'.Ordered :=
  ⟨order.rows.sublist h.fewer, fun r hr => h.same ▸ order.next r (h.fewer.mem hr)⟩

/-- A thread with rows is swept. -/
theorem Ordered.sweepThread (h : t.Ordered) (limit : Float) (some : 0 < n)
    (there : part Row.thread t.rows thread ≠ []) :
    ∃ t' deleted, t.sweepThread limit n thread = .ok (t', deleted) ∧ Swept limit n [thread] t t' deleted := by
  obtain ⟨last, latest⟩ : ∃ last, (part Row.thread t.rows thread).getLast? = .some last :=
    ⟨_, List.getLast?_eq_some_getLast there⟩
  obtain ⟨rest, keep⟩ : ∃ rest, t.keepList thread n = last.number :: rest := by
    obtain ⟨init, rows⟩ := List.getLast?_eq_some_iff.mp latest
    obtain ⟨m, rfl⟩ := Nat.exists_eq_add_one_of_ne_zero (Nat.ne_of_gt some)
    exact ⟨_, by rw [keepList, h.ofThread_eq, rows, List.reverse_concat, List.take_succ_cons, List.map_cons]⟩
  have listed := h.contains_keepList thread n
  rw [keep] at listed
  refine ⟨_, _, by rw [Table.sweepThread, keep], rfl, List.filter_sublist, ?_, fun other => ?_⟩
  · have all := List.length_eq_countP_add_countP (isSwept thread last.number (last.number :: rest) limit) (l := t.rows)
    simp only [decide_not, Bool.decide_eq_true] at all
    rw [← List.countP_eq_length_filter, Nat.add_comm, all]
  · show List.filter _ (List.filter _ t.rows) = _
    rw [List.filter_comm]
    by_cases same : other = thread
    · subst same
      rw [if_pos (List.mem_singleton_self other)]
      exact filter_isSwept (h.rows.filter _) (fun r hr => eq_of_beq (List.mem_filter.mp hr).2) latest some listed
    · rw [if_neg (by simpa using same)]
      refine List.filter_eq_self.mpr fun r hr => ?_
      have elsewhere : (r.thread == thread) = false :=
        beq_false_of_ne fun own => same ((eq_of_beq (List.mem_filter.mp hr).2).symm.trans own)
      rw [isSwept, elsewhere, Bool.false_and, Bool.false_and, Bool.not_false]

/-- Threads with rows are swept one after another. A thread that comes twice is left as it was after the first time. -/
theorem Ordered.sweepThreads (h : t.Ordered) (limit : Float) (some : 0 < n) (deleted : Nat) {threads : List String}
    (there : ∀ thread ∈ threads, part Row.thread t.rows thread ≠ []) :
    ∃ t' k, Table.sweepThreads limit n t deleted threads = .ok (t', deleted + k) ∧ Swept limit n threads t t' k := by
  induction threads generalizing t deleted with
  | nil => exact ⟨t, 0, rfl, rfl, List.Sublist.refl _, rfl, fun thread => (if_neg List.not_mem_nil).symm⟩
  | cons thread threads ih =>
    obtain ⟨u, k, first, swept⟩ := h.sweepThread limit some (there thread List.mem_cons_self)
    have left : ∀ other ∈ threads, part Row.thread u.rows other ≠ [] := by
      intro other mem none
      refine there other (List.mem_cons_of_mem thread mem) (List.getLast?_eq_none_iff.mp ?_)
      have last := congrArg List.getLast? (swept.parts other)
      rw [none] at last
      split at last
      · rwa [getLast?_retained, eq_comm] at last
      · exact last.symm
    obtain ⟨t', l, rest, others⟩ := ih (swept.ordered h) (deleted + k) left
    refine ⟨t', k + l, ?_, ?_, others.fewer.trans swept.fewer, ?_, fun other => ?_⟩
    · exact bind_eq_ok.mpr ⟨(u, k), first, by rw [← Nat.add_assoc]; exact rest⟩
    · rw [others.same, swept.same]
    · have one := swept.count
      have more := others.count
      omega
    · rw [others.parts, swept.parts]
      by_cases same : other = thread <;> by_cases mem : other ∈ threads <;> simp [same, mem, retained_retained]

theorem mem_threads_iff : thread ∈ t.threads ↔ part Row.thread t.rows thread ≠ [] := by
  simp [threads, part, List.filter_eq_nil_iff]

/-- Every thread has what is retained of it, and the rows that were deleted are counted. -/
theorem Ordered.sweepUntil (h : t.Ordered) (limit : Float) (perThread : Int) :
    ∃ t' deleted, t.sweepUntil limit perThread = (t', .ok deleted) ∧ t' = { t with rows := t'.rows } ∧
      t'.rows.Sublist t.rows ∧ t'.rows.length + deleted = t.rows.length ∧
      ∀ thread, part Row.thread t'.rows thread =
        retained limit (max 1 perThread).toNat (part Row.thread t.rows thread) := by
  have there : ∀ thread ∈ t.threads, part Row.thread t.rows thread ≠ [] := fun _ => mem_threads_iff.mp
  obtain ⟨t', k, done, swept⟩ := h.sweepThreads limit (n := (max 1 perThread).toNat) (by omega) 0 there
  refine ⟨t', k, by rw [Table.sweepUntil, done, Nat.zero_add], swept.same, swept.fewer, swept.count, fun thread => ?_⟩
  rw [swept.parts]
  split
  · rfl
  · rename_i missing
    have none : part Row.thread t.rows thread = [] := Classical.not_not.mp fun some =>
      missing (mem_threads_iff.mpr some)
    rw [none, retained_nil]

/-- A second sweep deletes nothing. -/
theorem Ordered.sweepUntil_again (h : t.Ordered) {perThread : Int} {deleted : Nat}
    (swept : t.sweepUntil limit perThread = (t', .ok deleted)) : t'.sweepUntil limit perThread = (t', .ok 0) := by
  obtain ⟨u, k, done, same, fewer, -, parts⟩ := h.sweepUntil limit perThread
  cases swept.symm.trans done
  have order : t'.Ordered := ⟨h.rows.sublist fewer, fun r hr => same ▸ h.next r (fewer.mem hr)⟩
  obtain ⟨v, l, again, same', fewer', count, parts'⟩ := order.sweepUntil limit perThread
  have all : t'.rows ⊆ v.rows := by
    intro r hr
    have mem : r ∈ part Row.thread t'.rows r.thread := List.mem_filter.mpr ⟨hr, beq_self_eq_true _⟩
    rw [parts, ← retained_retained, ← parts, ← parts'] at mem
    exact (List.mem_filter.mp mem).1
  have once : t'.rows.Nodup := by
    refine order.rows.imp fun {r s} lt => ?_
    rintro rfl
    exact Nat.lt_irrefl _ lt
  have whole : v.rows = t'.rows := fewer'.eq_of_length_le (once.subperm all).length_le
  rw [again]
  refine Prod.ext ?_ ?_
  · rw [same', whole]
  · rw [whole] at count
    exact congrArg Except.ok (by omega)

/-- The numbers that are passed to a sweep are not too large. -/
theorem cleanup_eq (now : Float) {seconds : Float} {hours perThread : Int}
    (age : Value.toFloat (hours * 3600) = .ok seconds) (fits : t.rows = [] ∨ fitsColumn (max 1 perThread) = true)
    {deleted : Nat} (swept : t.sweepUntil (now - seconds) perThread = (t', .ok deleted)) :
    t.cleanup now hours perThread = .ok (t', deleted) := by
  have fits : (t.rows.isEmpty || fitsColumn (max 1 perThread)) = true := by simpa using fits
  rw [cleanup, age]
  simp only [bind, Except.bind, fits, if_true, swept]
  rfl

/-! ### Tables that shed rows -/

/-- The second table lacks rows of the first, whose ids are among those that are lost. None of them is the last row of
    its thread. -/
structure Sheds (lost : String → Prop) (t t' : Table) : Prop where
  order : t.Ordered
  name : t'.name = t.name
  next : t'.next = t.next
  fewer : t'.rows.Sublist t.rows
  last : ∀ thread, (part Row.thread t'.rows thread).getLast? = (part Row.thread t.rows thread).getLast?
  gone : ∀ r ∈ t.rows, r ∉ t'.rows → lost r.id

theorem Ordered.sheds (h : t.Ordered) (same : t' = { t with rows := t'.rows }) (fewer : t'.rows.Sublist t.rows)
    (parts : ∀ thread, part Row.thread t'.rows thread = retained limit n (part Row.thread t.rows thread))
    {lost : String → Prop} (gone : ∀ r ∈ t.rows, r ∉ t'.rows → lost r.id) : t.Sheds lost t' where
  order := h
  name := same ▸ rfl
  next := same ▸ rfl
  fewer := fewer
  last thread := by rw [parts, getLast?_retained]
  gone := gone

theorem mapM_sublist {α β : Type} {f : α → Except Fault β} {xs ys : List α} (h : ys.Sublist xs) {cs : List β}
    (all : xs.mapM f = .ok cs) : ∃ ds, ys.mapM f = .ok ds ∧ ds.Sublist cs := by
  induction h generalizing cs with
  | slnil => exact ⟨cs, all, List.Sublist.refl cs⟩
  | cons x _ ih =>
    rw [List.mapM_cons] at all
    obtain ⟨c, -, all⟩ := bind_eq_ok.mp all
    obtain ⟨rest, read, all⟩ := bind_eq_ok.mp all
    cases all
    obtain ⟨ds, some, fewer⟩ := ih read
    exact ⟨ds, some, fewer.cons c⟩
  | cons_cons x _ ih =>
    rw [List.mapM_cons] at all
    obtain ⟨c, first, all⟩ := bind_eq_ok.mp all
    obtain ⟨rest, read, all⟩ := bind_eq_ok.mp all
    cases all
    obtain ⟨ds, some, fewer⟩ := ih read
    refine ⟨c :: ds, ?_, fewer.cons_cons c⟩
    rw [List.mapM_cons, first, some]
    rfl

namespace Sheds

variable {lost : String → Prop} (h : t.Sheds lost t')
include h

theorem order' : t'.Ordered :=
  ⟨h.order.rows.sublist h.fewer, fun r hr => h.next ▸ h.order.next r (h.fewer.mem hr)⟩

theorem load (thread : String) : t'.load thread = t.load thread := by
  rw [Table.load, Table.load, h.order'.ofThread_eq, h.order.ofThread_eq, h.last]

/-- No thread disappears. -/
theorem exists_row {r : Row} (hr : r ∈ t.rows) : ∃ r' ∈ t'.rows, r'.thread = r.thread := by
  have mem : r ∈ part Row.thread t.rows r.thread := List.mem_filter.mpr ⟨hr, beq_self_eq_true _⟩
  have last := h.last r.thread
  rw [List.getLast?_eq_some_getLast (List.ne_nil_of_mem mem)] at last
  obtain ⟨there, own⟩ := List.mem_filter.mp (List.mem_of_getLast? last)
  exact ⟨_, there, eq_of_beq own⟩

/-- Whatever can be told of a thread can be told without some of it. -/
theorem list {thread : String} {cs : List Checkpoint} (all : t.list thread = .ok cs) :
    ∃ ds, t'.list thread = .ok ds ∧ ds.Sublist cs := by
  rw [Table.list, h.order.ofThread_eq] at all
  rw [Table.list, h.order'.ofThread_eq]
  exact mapM_sublist (h.fewer.filter _) all

theorem added (c : Checkpoint) (p : Payload) : (t.added c p).Sheds lost (t'.added c p) where
  order := h.order.added c p
  name := h.name
  next := congrArg (· + 1) h.next
  fewer := by
    rw [Table.added, Table.added, h.next]
    exact h.fewer.append (List.Sublist.refl _)
  last thread := by
    simp only [Table.added, part_append]
    split
    · rw [List.getLast?_concat, List.getLast?_concat, h.next]
    · exact h.last thread
  gone r hr missing := by
    simp only [Table.added, h.next, List.mem_append, not_or] at hr missing
    exact h.gone r (hr.resolve_right missing.2) missing.1

/-- A row with a new id is written into both tables, or into none. -/
theorem save {c : Checkpoint} (new : ¬ lost c.id.text) : Both (Sheds lost) (t.save c) (t'.save c) := by
  have taken : (t'.rows.any fun r => r.id == c.id.text) = t.rows.any fun r => r.id == c.id.text := by
    rw [Bool.eq_iff_iff, List.any_eq_true, List.any_eq_true]
    constructor
    · rintro ⟨r, hr, same⟩
      exact ⟨r, h.fewer.mem hr, same⟩
    · rintro ⟨r, hr, same⟩
      refine ⟨r, Classical.byContradiction fun missing => new ?_, same⟩
      exact eq_of_beq same ▸ h.gone r hr missing
  unfold Table.save
  refine (Both.refl (S := Eq) (fun _ => rfl) (Payload.ofCheckpoint c)).bind fun {p q} same => ?_
  subst same
  rw [taken, h.name]
  split
  · exact .error _
  · split
    · exact .error _
    · split
      · exact .error _
      · have added := h.added c p
        unfold Table.added at added
        rw [h.name] at added
        exact .ok added

theorem delete (thread : String) : (t.delete thread).1.Sheds lost (t'.delete thread).1 where
  order := h.order.filter _
  name := h.name
  next := h.next
  fewer := h.fewer.filter _
  last other := by
    simp only [Table.delete, part_delete]
    split
    · rfl
    · exact h.last other
  gone r hr missing := by
    obtain ⟨hr, stays⟩ := List.mem_filter.mp hr
    exact h.gone r hr fun there => missing (List.mem_filter.mpr ⟨there, stays⟩)

theorem deleted_le (thread : String) : (t'.delete thread).2 ≤ (t.delete thread).2 := by
  rw [Table.delete, Table.delete, h.order.ofThread_eq, h.order'.ofThread_eq]
  exact (h.fewer.filter _).length_le

end Sheds

/-- Sweeping leaves what is told of a thread. -/
theorem Ordered.load_sweep (h : t.Ordered) (now hours : Float) (perThread : Int) (thread : String) :
    (t.sweep now hours perThread).1.load thread = t.load thread := by
  obtain ⟨t', k, swept, same, fewer, -, parts⟩ := h.sweepUntil (now - hours * 3600) perThread
  have sheds : t.Sheds (fun _ => True) t' := h.sheds same fewer parts fun _ _ _ => trivial
  rw [Table.sweep, swept]
  exact sheds.load thread

end Store.Table

end Workflow
