import Workflow.Proofs.Copies
import Workflow.Proofs.Resumed

/-! # What stores have of threads

A store that was only used by engines has a list of checkpoints of each thread (`Store.Reached.has`). A save that is
taken puts one after them, as the store keeps it, and one that is refused leaves them (`Store.Has.write`). The list is
what the store tells of the thread, as long as eight digits number its files (`Store.Has.told`). -/

namespace Workflow

/-- What a store keeps of a value: its normal form, if the store outlives the process. -/
def Value.KeptAs (durable : Bool) (v u : Value) : Prop := if durable then Json.normal v = .ok u else u = v

namespace Checkpoint

variable {c d : Checkpoint}

theorem exact_of_normal (h : c.normal = .ok d) : d.toValue.Exact :=
  Value.exact_of_normal (v := c.toValue) (by rw [normal_toValue, h]; rfl)

theorem normal_of_exact (h : c.toValue.Exact) (version : c.version = checkpointVersion) : c.normal = .ok c := by
  have written := Json.normal_of_exact h
  rw [normal_toValue] at written
  cases hc : c.normal with
  | error f =>
    rw [hc] at written
    cases written
  | ok k => rw [(normal_eq_iff version hc).mpr h]

/-- A failure that is written down over a checkpoint changes nothing else of it, if JSON keeps the checkpoint. -/
theorem normal_failed (h : c.toValue.Exact) (version : c.version = checkpointVersion) {error id timestamp : Value}
    (hid : Json.normal id = .ok id) (time : Json.normal timestamp = .ok timestamp)
    (kept : (c.failed error id timestamp).normal = .ok d) :
    ∃ error', Json.normal error = .ok error' ∧ d = c.failed error' id timestamp := by
  have same := normal_of_exact h version
  simp only [normal, bind_eq_ok] at same kept
  obtain ⟨_, v, _, -, _, t, _, g, _, n, _, s, _, -, _, hs, _, -, _, -, _, m, same⟩ := same
  obtain ⟨_, v', _, i', _, t', _, g', _, n', _, s', _, p', _, hs', error', e', _, time', _, m', kept⟩ := kept
  cases kept
  obtain ⟨thread, graph, node, state, step, status, interrupt, history, error, _, _, _, metadata⟩ := c
  cases same
  cases v.symm.trans v'
  cases t.symm.trans t'
  cases g.symm.trans g'
  cases n.symm.trans n'
  cases s.symm.trans s'
  cases hs.symm.trans hs'
  cases m.symm.trans m'
  cases hid.symm.trans i'
  cases time.symm.trans time'
  cases p'
  exact ⟨error', e', rfl⟩

end Checkpoint

namespace Store

variable {s u : Store} {c d : Checkpoint} {cs : List Checkpoint} {p : Payload} {thread other : String} {n : Nat}
  {durable : Bool}

/-! ### Lists of checkpoints -/

/-- The payload is what is written of the checkpoint, and JSON keeps all of it. -/
structure Payload.Writes (p : Payload) (c : Checkpoint) : Prop where
  document : p = .document c.toValue
  version : c.version = checkpointVersion
  exact : c.toValue.Exact

theorem Payload.Writes.holds (h : p.Writes c) : p.Holds c := by
  rw [h.document]
  exact fun _ => Checkpoint.ofValue_toValue h.version

theorem Payload.writes_of_ofCheckpoint (version : c.version = checkpointVersion) (h : ofCheckpoint c = .ok p) :
    ∃ d, c.normal = .ok d ∧ p.Writes d := by
  obtain ⟨d, hd, rfl⟩ := ofCheckpoint_eq_ok.mp h
  exact ⟨d, hd, rfl, Checkpoint.version_normal version hd, Checkpoint.exact_of_normal hd⟩

/-- Of the thread the store has these checkpoints, in the order of saving. -/
def Has (s : Store) (thread : String) (cs : List Checkpoint) : Prop :=
  match s with
  | .memory saved | .limited saved _ _ => ofThread saved thread = cs
  | .table t => List.Forall₂ (fun r c => r.payload.Writes c) (part Row.thread t.rows thread) cs
  | .files f => List.Forall₂ (fun x c => x.payload.Writes c) (part File.thread f.files thread) cs

/-- All of a checkpoint that a durable store has is kept by JSON. -/
theorem Has.exact (h : s.Has thread cs) (lasting : s.isDurable = true) (hc : c ∈ cs) :
    c.version = checkpointVersion ∧ c.toValue.Exact := by
  have all {α : Type} {payload : α → Payload} {xs : List α}
      (written : List.Forall₂ (fun x c => (payload x).Writes c) xs cs) :
      c.version = checkpointVersion ∧ c.toValue.Exact := by
    clear h
    induction written with
    | nil => cases hc
    | cons first _ ih =>
      rcases List.mem_cons.mp hc with rfl | hc
      · exact ⟨first.version, first.exact⟩
      · exact ih hc
  cases s with
  | memory | limited => cases lasting
  | table | files => exact all h

theorem Payload.Writes.unique (h : p.Writes c) (h' : p.Writes d) : c = d :=
  Checkpoint.eq_of_toValue_eq h.version h'.version (Payload.document.inj (h.document.symm.trans h'.document))

theorem Has.unique {ds : List Checkpoint} (h : s.Has thread cs) (h' : s.Has thread ds) : cs = ds := by
  have same {α : Type} {payload : α → Payload} {xs : List α}
      (written : List.Forall₂ (fun x c => (payload x).Writes c) xs cs)
      (written' : List.Forall₂ (fun x c => (payload x).Writes c) xs ds) : cs = ds := by
    clear h h'
    induction written generalizing ds with
    | nil =>
      cases written'
      rfl
    | cons first _ ih =>
      cases written' with
      | cons first' rest' => rw [first.unique first', ih rest']
  cases s with
  | memory | limited => exact h.symm.trans h'
  | table | files => exact same h h'

/-- The list is told of the thread, if anything is. -/
theorem Has.told (h : s.Has thread cs) (ranked : s.Ranked durable) (few : s.Few thread) {last : Option Checkpoint}
    (told : s.load thread = .ok last) : s.list thread = .ok cs ∧ last = cs.getLast? := by
  cases s with
  | memory | limited =>
    subst h
    exact ⟨rfl, (Except.ok.inj told).symm⟩
  | table t =>
    cases ranked.order ranked.kind.symm with
    | table order =>
      have holds : List.Forall₂ (fun r c => r.payload.Holds c) (t.ofThread thread) cs :=
        order.ofThread_eq thread ▸ List.Forall₂.imp (fun _ _ h => h.holds) h
      refine ⟨mapM_read holds, ?_⟩
      have lasts := getLast?_of_forall₂ holds
      rw [Store.load, Table.load] at told
      generalize (t.ofThread thread).getLast? = r at lasts told
      generalize cs.getLast? = c at lasts ⊢
      cases lasts with
      | none => exact (Except.ok.inj told).symm
      | some holds =>
        simp only [Table.readRow, holds _] at told
        exact (Except.ok.inj told).symm
  | files f =>
    cases ranked.order ranked.kind.symm with
    | files numbered =>
      have ordered : f.ofThread thread = part File.thread f.files thread :=
        numbered.ofThread_eq (numbered.length_ofThread thread ▸ Nat.le_of_lt (few f rfl))
      have holds : List.Forall₂ (fun x c => x.payload.Holds c) (f.ofThread thread) cs :=
        ordered ▸ List.Forall₂.imp (fun _ _ h => h.holds) h
      obtain ⟨_, named, told⟩ := bind_eq_ok.mp told
      refine ⟨bind_eq_ok.mpr ⟨_, named, mapM_read holds⟩, ?_⟩
      have lasts := getLast?_of_forall₂ holds
      generalize (f.ofThread thread).getLast? = r at lasts told
      generalize cs.getLast? = c at lasts ⊢
      cases lasts with
      | none => exact (Except.ok.inj told).symm
      | some holds =>
        obtain ⟨_, read, told⟩ := bind_eq_ok.mp told
        cases (holds _).symm.trans read
        exact (Except.ok.inj told).symm

/-! ### Saving and deleting -/

/-- A save that is taken puts what the store keeps after all others of the thread, and one that is refused leaves
    them. -/
theorem Has.write (h : s.Has thread cs) (ranked : s.Ranked durable) (own : c.thread = .str thread)
    (version : durable = true → c.version = checkpointVersion) :
    ((s.write c).2 = .ok () ∧ ∃ d, c.KeptAs durable d ∧ (s.write c).1.Has thread (cs ++ [d])) ∨
      (∃ f, (s.write c).2 = .error f) ∧ (s.write c).1.Has thread cs := by
  have text : c.thread.text = thread := by rw [own]; rfl
  have kind := ranked.kind
  have appended (saved : List Checkpoint) : ofThread (saved ++ [c]) thread = ofThread saved thread ++ [c] := by
    rw [ofThread_append, if_pos (Checkpoint.isOf_iff.mpr own)]
  cases s with
  | memory saved =>
    subst kind h
    exact .inl ⟨rfl, c, rfl, appended saved⟩
  | limited saved n =>
    subst kind
    cases n with
    | zero => exact .inr ⟨⟨_, rfl⟩, h⟩
    | succ n =>
      subst h
      exact .inl ⟨rfl, c, rfl, appended saved⟩
  | table t =>
    subst kind
    simp only [Store.write, Store.save]
    rcases t.save_cases c with ⟨p, hp, -, taken⟩ | ⟨f, refused, -⟩
    · obtain ⟨d, hd, writes⟩ := Payload.writes_of_ofCheckpoint (version rfl) hp
      rw [taken]
      refine .inl ⟨rfl, d, hd, ?_⟩
      show List.Forall₂ _ (part Row.thread (t.added c p).rows thread) (cs ++ [d])
      rw [Table.added, part_append, if_pos text.symm]
      exact List.rel_append h (.cons writes .nil)
    · rw [refused]
      exact .inr ⟨⟨f, rfl⟩, h⟩
  | files f =>
    subst kind
    cases ranked.order rfl with
    | files numbered =>
      simp only [Store.write]
      rcases f.write_cases c with ⟨p, hp, -, taken⟩ | ⟨g, refused, -, left, -⟩
      · obtain ⟨d, hd, writes⟩ := Payload.writes_of_ofCheckpoint (version rfl) hp
        rw [taken]
        refine .inl ⟨rfl, d, hd, ?_⟩
        show List.Forall₂ _ (part File.thread (f.added c p).files thread) (cs ++ [d])
        rw [numbered.files_added, part_append, if_pos (by exact text.symm)]
        exact List.rel_append h (.cons writes .nil)
      · refine .inr ⟨⟨g, refused⟩, ?_⟩
        show List.Forall₂ _ (part File.thread (f.write c).1.files thread) cs
        rcases left with left | left <;> rw [left]
        · exact h
        · rw [Files.files_withFolder]
          exact h

theorem SamePart.has (same : SamePart thread s u) (h : s.Has thread cs) : u.Has thread cs := by
  cases same with
  | memory same | limited same => exact same.trans h
  | table same | files _ _ same =>
    simp only [Has, same]
    exact h

theorem Has.delete (deleted : s.delete thread = .ok (u, n)) : u.Has thread [] := by
  cases s with
  | memory saved | limited saved =>
    cases deleted
    exact ofThread_without saved thread
  | table t =>
    cases deleted
    show List.Forall₂ _ (part Row.thread (t.rows.filter fun r => r.thread != thread) thread) []
    rw [part_delete, if_pos rfl]
    exact .nil
  | files f =>
    obtain rfl := delete_files deleted
    show List.Forall₂ _ (part File.thread (f.files.filter fun x => x.thread != thread) thread) []
    rw [part_delete, if_pos rfl]
    exact .nil

/-! ### Stores in use -/

theorem Has.mem_of_reads (h : s.Has thread cs) (reads : s.Reads thread c) : c ∈ cs := by
  have found {α : Type} {payload : α → Payload} {xs : List α} {x : α} {unreadable : Payload.Unreadable}
      (written : List.Forall₂ (fun x c => (payload x).Writes c) xs cs) (hx : x ∈ xs)
      (read : (payload x).read unreadable = .ok c) : c ∈ cs := by
    clear h
    induction written with
    | nil => cases hx
    | cons first _ ih =>
      rcases List.mem_cons.mp hx with rfl | hx
      · cases (first.holds _).symm.trans read
        exact List.mem_cons_self
      · exact List.mem_cons_of_mem _ (ih hx)
  cases s with
  | memory | limited =>
    subst h
    exact List.mem_filter.mpr (reads.imp_right Checkpoint.isOf_iff.mpr)
  | table t =>
    obtain ⟨r, hr, own, unreadable, read⟩ := reads
    exact found h (List.mem_filter.mpr ⟨hr, beq_iff_eq.mpr own⟩) read
  | files f =>
    obtain ⟨x, hx, own, unreadable, read⟩ := reads
    exact found h (List.mem_filter.mpr ⟨hx, beq_iff_eq.mpr own⟩) read

/-- The store has a list of each thread. -/
structure Listed (durable : Bool) (s : Store) : Prop extends Ranked durable s where
  lists : ∀ thread, ∃ cs, s.Has thread cs

theorem Listed.version (h : s.Listed durable) (load : s.load thread = .ok (some c)) (lasting : durable = true) :
    c.version = checkpointVersion := by
  obtain ⟨cs, has⟩ := h.lists thread
  exact (has.exact (h.kind.trans lasting) (has.mem_of_reads (reads_of_load load))).1

theorem Listed.write (h : s.Listed durable) (own : c.thread = .str thread)
    (version : durable = true → c.version = checkpointVersion) : (s.write c).1.Listed durable where
  toRanked := h.toRanked.write own
  lists other := by
    by_cases same : other = thread
    · subst same
      obtain ⟨cs, has⟩ := h.lists other
      rcases has.write h.toRanked own version with ⟨-, d, -, has⟩ | ⟨-, has⟩
      · exact ⟨_, has⟩
      · exact ⟨_, has⟩
    · obtain ⟨cs, has⟩ := h.lists other
      exact ⟨cs, (samePart_write own same).has has⟩

theorem Listed.delete (h : s.Listed durable) (deleted : s.delete thread = .ok (u, n)) : u.Listed durable where
  toRanked := h.toRanked.delete deleted
  lists other := by
    by_cases same : other = thread
    · subst same
      exact ⟨[], Has.delete deleted⟩
    · obtain ⟨cs, has⟩ := h.lists other
      exact ⟨cs, (samePart_delete same deleted).has has⟩

theorem listed_of_isUnused (h : s.IsUnused) : s.Listed s.isDurable where
  toRanked := ranked_of_isUnused h
  lists thread := by
    rcases h with h | ⟨saves, hint, rfl⟩
    · refine ⟨[], ?_⟩
      cases s with
      | memory saved =>
        obtain rfl : saved = [] := h
        rfl
      | table t =>
        rw [Has, show t.rows = [] from h]
        exact .nil
      | files f =>
        rw [Has, h.2]
        exact .nil
      | limited => exact h.elim
    · exact ⟨[], rfl⟩

/-- What is left of a list of which each part can be read is a list of such parts. -/
theorem exists_forall₂_filter {α : Type} {R : α → Checkpoint → Prop} {xs : List α} (h : List.Forall₂ R xs cs)
    (p : α → Bool) : ∃ ds, List.Forall₂ R (xs.filter p) ds := by
  induction h with
  | nil => exact ⟨[], .nil⟩
  | @cons x c _ _ first _ ih =>
    obtain ⟨ds, rest⟩ := ih
    cases hp : p x with
    | false => exact ⟨ds, by rwa [List.filter_cons_of_neg (by rw [hp]; exact Bool.false_ne_true)]⟩
    | true => exact ⟨c :: ds, by rw [List.filter_cons_of_pos hp]; exact .cons first rest⟩

theorem Listed.sweep {t : Table} (h : (table t).Listed durable) (now hours : Float) (perThread : Int) :
    (table (t.sweep now hours perThread).1).Listed durable where
  toRanked := h.toRanked.sweep now hours perThread
  lists thread := by
    obtain ⟨cs, has⟩ := h.lists thread
    obtain ⟨p, swept⟩ := t.filter_of_sweep now hours perThread
    have left : part Row.thread (t.rows.filter p) thread = (part Row.thread t.rows thread).filter p := by
      rw [part, part, List.filter_filter, List.filter_filter]
      exact List.filter_congr fun r _ => Bool.and_comm _ _
    rw [swept]
    simp only [Has, left]
    exact exists_forall₂_filter has p

end Store

namespace Surroundings

variable {w : Surroundings} {graph thread : String} {durable : Bool}

theorem Draws.version {snapshot : (id timestamp : Value) → Checkpoint} (draws : w.Draws graph thread snapshot)
    (h : w.store.Listed durable) (lasting : durable = true) : (w.drawUp snapshot).version = checkpointVersion := by
  cases draws with
  | run => rfl
  | failure load =>
    have kept := h.version load lasting
    exact kept

theorem stable_listed (graph thread : String) (durable : Bool) :
    Stock.Stable graph thread fun x => x.store.Listed durable where
  save draws h := h.write (draws.own h.toOwned _ _) (draws.version h)
  logged _ h := h
  deleted h deleted := h.delete deleted

end Surroundings

/-- A store that was only used by engines has a list of each thread. -/
theorem Store.Reached.listed {s : Store} (h : s.Reached) : s.Listed s.isDurable := by
  induction h with
  | unused h => exact listed_of_isUnused h
  | evolved _ step ih =>
    obtain ⟨g, w, use, -, rfl, rfl⟩ := step
    have kept := Engine.stable_use (Surroundings.stable_listed g.definition.name use.thread _) (fun h => h.toOwned) ih
    exact kept.kind.symm ▸ kept
  | swept _ now hours perThread ih => exact ih.sweep now hours perThread

end Workflow
