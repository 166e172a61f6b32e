import Workflow.Proofs.Durable
import Workflow.Proofs.Evolution
import Workflow.Proofs.Shown

/-! # Copies in other stores

A store that has been written to by an engine is tidy (`Store.Tidy`): what it keeps is in order, can be read, and is of
the thread it is kept under. Two tidy stores may keep the same of one thread and differ in all others
(`Store.Copies`). They tell the same of the thread, but for ids and times, and go on to do so whatever is written and
deleted, of the thread in both of them (`Copies.write`, `Copies.delete`) and of other threads in the first
(`Copies.of_samePart`). -/

namespace Workflow

variable {c c' d : Checkpoint} {n m : Nat} {thread other : String}

/-- The checkpoint is of the thread, and the one that was drawn up after `n` others. -/
structure Checkpoint.Drawn (c : Checkpoint) (n : Nat) (thread : String) : Prop where
  own : c.thread = .str thread
  version : c.version = checkpointVersion
  id : c.id = Surroundings.drawnId n
  timestamp : c.timestamp = .int n

/-! ### Ids -/

theorem Text.hexDigits_inj {width : Nat} (hm : m < 16 ^ width) (hn : n < 16 ^ width)
    (same : hexDigits width m = hexDigits width n) : m = n := by
  have digits : ∀ i < 16, ∀ j < 16, hexDigit i = hexDigit j → i = j := by decide
  induction width generalizing m n with
  | zero => rw [Nat.pow_zero] at hm hn; omega
  | succ width ih =>
    obtain ⟨before, last⟩ := List.append_inj' same rfl
    rw [Nat.pow_succ] at hm hn
    have before : m / 16 = n / 16 := ih (by omega) (by omega) before
    have last := digits _ (Nat.mod_lt m (by decide)) _ (Nat.mod_lt n (by decide)) (List.cons.inj last).1
    omega

/-- Ids that are drawn while numbers of 32 digits last are told apart. -/
theorem Surroundings.drawnId_inj (hm : m < 16 ^ 32) (hn : n < 16 ^ 32) (same : (drawnId m).text = (drawnId n).text) :
    m = n := by
  have texts : String.ofList (Text.hexDigits 32 m) = String.ofList (Text.hexDigits 32 n) := same
  exact Text.hexDigits_inj hm hn (String.ofList_injective texts)

namespace Checkpoint

theorem normal_stamped {id timestamp : Value} (hc : Json.normal c.id = .ok c.id) (hid : Json.normal id = .ok id)
    (hc' : Json.normal c.timestamp = .ok c.timestamp) (ht : Json.normal timestamp = .ok timestamp) :
    normal { c with id, timestamp } = (fun d => { d with id, timestamp }) <$> c.normal := by
  simp only [normal, hc, hid, hc', ht, map_bind, map_pure]
  rfl

/-- What is read back of checkpoints that differ in their marks differs in nothing else. -/
theorem normal_marked (h : c.Marked c') (drawn : c.Drawn n thread) (drawn' : c'.Drawn m thread) :
    Both Marked c.normal c'.normal := by
  have same : c'.normal = (fun d => { d with id := c'.id, timestamp := c'.timestamp }) <$> c.normal := by
    refine Eq.trans (congrArg normal h) (normal_stamped ?_ ?_ ?_ ?_)
    · rw [drawn.id]; rfl
    · rw [drawn'.id]; rfl
    · rw [drawn.timestamp]; rfl
    · rw [drawn'.timestamp]; rfl
  rw [same]
  cases c.normal with
  | error f => exact .error f
  | ok d => exact .ok rfl

end Checkpoint

namespace Store

/-! ### Payloads -/

namespace Payload

variable {p q : Payload}

/-- The payload holds a checkpoint of the thread. -/
def Of (p : Payload) (thread : String) : Prop :=
  ∃ d, p.Holds d ∧ d.thread = .str thread ∧ d.version = checkpointVersion

/-- The payloads hold checkpoints that differ in their marks at most. -/
def Copied (p q : Payload) : Prop := ∃ d d', p.Holds d ∧ q.Holds d' ∧ d.Marked d'

theorem holds_of_normal (version : c.version = checkpointVersion) (h : c.normal = .ok d) :
    (document d.toValue).Holds d :=
  fun _ => Checkpoint.ofValue_toValue (Checkpoint.version_normal version h)

theorem of_ofCheckpoint (drawn : c.Drawn n thread) (h : ofCheckpoint c = .ok p) : p.Of thread := by
  obtain ⟨d, hd, rfl⟩ := ofCheckpoint_eq_ok.mp h
  obtain ⟨-, own, -⟩ := Checkpoint.normal_eq_ok hd
  rw [drawn.own] at own
  exact ⟨d, holds_of_normal drawn.version hd, (Except.ok.inj own).symm, Checkpoint.version_normal drawn.version hd⟩

theorem ofCheckpoint_marked (h : c.Marked c') (drawn : c.Drawn n thread) (drawn' : c'.Drawn m thread) :
    Both Copied (ofCheckpoint c) (ofCheckpoint c') := by
  have holds : ∀ {d}, c.normal = .ok d → (document d.toValue).Holds d := holds_of_normal drawn.version
  have holds' : ∀ {d}, c'.normal = .ok d → (document d.toValue).Holds d := holds_of_normal drawn'.version
  have related := Checkpoint.normal_marked h drawn drawn'
  rw [ofCheckpoint, ofCheckpoint, Checkpoint.normal_toValue, Checkpoint.normal_toValue, drawn.own, drawn'.own]
  generalize c.normal = x at related holds ⊢
  generalize c'.normal = y at related holds' ⊢
  cases related with
  | error f => exact .error _
  | ok marked => exact .ok ⟨_, _, holds rfl, holds' rfl, marked⟩

end Payload

/-! ### Lists of payloads -/

section Parts
variable {α : Type} {payload : α → Payload} {xs ys : List α}

/-- The last of payloads that are copied are read alike, if they are there. -/
theorem last_copied {unreadable unreadable' : α → Payload.Unreadable}
    (h : List.Forall₂ (fun x y => (payload x).Copied (payload y)) xs ys) :
    Both (Option.Rel Checkpoint.Marked) (xs.getLast?.mapM fun x => (payload x).read (unreadable x))
      (ys.getLast?.mapM fun y => (payload y).read (unreadable' y)) := by
  have last := getLast?_of_forall₂ h
  generalize xs.getLast? = a at last ⊢
  generalize ys.getLast? = b at last ⊢
  cases last with
  | none => exact .ok .none
  | some copied =>
    obtain ⟨c, d, holds, holds', marked⟩ := copied
    rw [Option.mapM_some, Option.mapM_some, holds, holds']
    exact .ok (.some marked)

theorem all_copied {unreadable unreadable' : α → Payload.Unreadable}
    (h : List.Forall₂ (fun x y => (payload x).Copied (payload y)) xs ys) :
    Both (List.Forall₂ Checkpoint.Marked) (xs.mapM fun x => (payload x).read (unreadable x))
      (ys.mapM fun y => (payload y).read (unreadable' y)) := by
  induction h with
  | nil => exact .ok .nil
  | cons copied _ ih =>
    obtain ⟨c, d, holds, holds', marked⟩ := copied
    rw [List.mapM_cons, List.mapM_cons, holds, holds']
    exact ih.bind fun rest => .ok (.cons marked rest)

end Parts

/-! ### Tidy stores -/

/-- What an engine leaves that has drawn up `n` checkpoints: all that is kept is in order and can be read, and is of the
    thread that it is kept under. -/
inductive Tidy (n : Nat) : Store → Prop
  | memory {saved : List Checkpoint} (version : ∀ c ∈ saved, c.version = checkpointVersion) : Tidy n (.memory saved)
  | table {t : Table} (order : t.Ordered) (drawn : ∀ r ∈ t.rows, ∃ k < n, r.id = (Surroundings.drawnId k).text)
      (own : ∀ r ∈ t.rows, r.payload.Of r.thread) : Tidy n (.table t)
  | files {f : Files} (order : f.Numbered) (own : ∀ x ∈ f.files, x.payload.Of x.thread) : Tidy n (.files f)

variable {s s' u : Store}

theorem Payload.Of.read {p : Payload} (h : p.Of thread) {unreadable : Payload.Unreadable}
    (read : p.read unreadable = .ok c) :
    c.thread = .str thread ∧ c.version = checkpointVersion := by
  obtain ⟨d, holds, own⟩ := h
  rw [holds] at read
  cases read
  exact own

/-- What is read of a tidy store is of the thread that it is read for. -/
theorem Tidy.loaded (h : s.Tidy n) (last : s.load thread = .ok (some c)) :
    c.thread = .str thread ∧ c.version = checkpointVersion := by
  have reads := reads_of_load last
  cases h with
  | memory version => exact ⟨reads.2, version c reads.1⟩
  | table _ _ own =>
    obtain ⟨r, hr, rfl, unreadable, read⟩ := reads
    exact (own r hr).read read
  | files _ own =>
    obtain ⟨x, hx, rfl, unreadable, read⟩ := reads
    exact (own x hx).read read

theorem tidy_of_isNew (h : s.IsNew) (n : Nat) : s.Tidy n := by
  cases s with
  | memory saved =>
    obtain rfl := h
    exact .memory fun _ hc => nomatch hc
  | table t =>
    have none : t.rows = [] := h
    cases inOrder_of_isNew rfl h with
    | table order => refine .table order ?_ ?_ <;> rw [none] <;> exact fun _ hr => nomatch hr
  | files f =>
    cases inOrder_of_isNew rfl h with
    | files order => exact .files order (h.2 ▸ fun _ hf => nomatch hf)
  | limited => exact h.elim

theorem Tidy.mono (h : s.Tidy n) (le : n ≤ m) : s.Tidy m := by
  cases h with
  | memory version => exact .memory version
  | table order drawn own =>
    refine .table order (fun r hr => ?_) own
    obtain ⟨k, lt, id⟩ := drawn r hr
    exact ⟨k, Nat.lt_of_lt_of_le lt le, id⟩
  | files order own => exact .files order own

theorem Tidy.write (h : s.Tidy n) (drawn : c.Drawn n thread) : (s.write c).1.Tidy (n + 1) := by
  have kept : ∀ {p}, Payload.ofCheckpoint c = .ok p → p.Of c.thread.text := by
    rw [drawn.own]
    exact Payload.of_ofCheckpoint drawn
  cases h with
  | memory version =>
    refine .memory ?_
    simp only [List.forall_mem_append, List.forall_mem_singleton]
    exact ⟨version, drawn.version⟩
  | @table t order ids own =>
    simp only [Store.write, Store.save]
    rcases t.save_cases c with ⟨p, written, -, taken⟩ | ⟨f, refused, -⟩
    · rw [taken]
      refine .table (order.added c p) ?_ ?_ <;>
        simp only [Table.added, List.forall_mem_append, List.forall_mem_singleton]
      · refine ⟨fun r hr => ?_, n, Nat.lt_succ_self n, by rw [drawn.id]⟩
        obtain ⟨k, lt, id⟩ := ids r hr
        exact ⟨k, Nat.lt_succ_of_lt lt, id⟩
      · exact ⟨own, kept written⟩
    · rw [refused]
      exact (Tidy.table order ids own).mono (Nat.le_succ n)
  | @files f order own =>
    simp only [Store.write]
    rcases f.write_cases c with ⟨p, written, -, taken⟩ | ⟨_, -, -, left | left, -⟩
    · rw [taken]
      refine .files (order.added c p) ?_
      rw [order.files_added]
      simp only [List.forall_mem_append, List.forall_mem_singleton]
      exact ⟨own, kept written⟩
    · rw [left]
      exact .files order own
    · rw [left]
      exact .files (order.withFolder _) (Files.files_withFolder f _ ▸ own)

theorem Tidy.delete (h : s.Tidy n) {k : Nat} (deleted : s.delete thread = .ok (u, k)) : u.Tidy n := by
  cases h with
  | memory version =>
    cases deleted
    exact .memory fun c hc => version c (List.mem_filter.mp hc).1
  | table order drawn own =>
    cases deleted
    exact .table (order.filter _) (fun r hr => drawn r (List.mem_filter.mp hr).1)
      fun r hr => own r (List.mem_filter.mp hr).1
  | @files f order own =>
    obtain rfl := delete_files deleted
    exact .files (order.dropped thread) fun x hx => own x (List.mem_filter.mp hx).1

/-! ### Copies -/

/-- What the one store keeps of the thread is what the other one does, but for ids and times. -/
inductive Copies (thread : String) : Store → Store → Prop
  | memory {saved saved' : List Checkpoint}
      (h : List.Forall₂ Checkpoint.Marked (ofThread saved thread) (ofThread saved' thread)) :
      Copies thread (.memory saved) (.memory saved')
  | table {t t' : Table} (h : List.Forall₂ (fun r r' => r.payload.Copied r'.payload)
      (part Row.thread t.rows thread) (part Row.thread t'.rows thread)) : Copies thread (.table t) (.table t')
  | files {f f' : Files} (h : List.Forall₂ (fun x x' => x.payload.Copied x'.payload)
      (part File.thread f.files thread) (part File.thread f'.files thread)) : Copies thread (.files f) (.files f')

theorem copies_of_isNew (h : s.IsNew) (thread : String) : Copies thread s s := by
  cases s with
  | memory saved =>
    obtain rfl := h
    exact .memory .nil
  | table t =>
    have none : t.rows = [] := h
    exact .table (by rw [none]; exact .nil)
  | files f => exact .files (by rw [h.2]; exact .nil)
  | limited => exact h.elim

/-! ### Reading copies -/

/-- Related lists are related in their orders, if these agree. -/
theorem forall₂_mergeSort {α β : Type} {R : α → β → Prop} {xs : List α} {ys : List β} {r : α → α → Bool}
    {r' : β → β → Bool} (h : List.Forall₂ R xs ys)
    (same : ∀ a ∈ xs.zip ys, ∀ b ∈ xs.zip ys, r a.1 b.1 = r' a.2 b.2) :
    List.Forall₂ R (xs.mergeSort r) (ys.mergeSort r') := by
  obtain ⟨length, related⟩ := List.forall₂_iff_zip.mp h
  -- Both orders are those of one list of pairs.
  have left : ((xs.zip ys).mergeSort fun a b => r a.1 b.1).map Prod.fst = xs.mergeSort r := by
    rw [List.map_mergeSort (s := r) fun _ _ _ _ => rfl, List.map_fst_zip (Nat.le_of_eq length)]
  have right : ((xs.zip ys).mergeSort fun a b => r a.1 b.1).map Prod.snd = ys.mergeSort r' := by
    rw [List.map_mergeSort same, List.map_snd_zip (Nat.le_of_eq length.symm)]
  rw [← left, ← right, List.forall₂_map_left_iff, List.forall₂_map_right_iff, List.forall₂_same]
  intro z hz
  exact related (List.mem_mergeSort.mp hz)

namespace Files

variable {f f' : Files}

theorem name_of_mem_zip {ids ids' : List String} {xs ys : List File} {a : File × File}
    (named : xs.map File.name = ids.mapIdx fileName) (named' : ys.map File.name = ids'.mapIdx fileName)
    (ha : a ∈ xs.zip ys) :
    ∃ i id id', (xs.zip ys)[i]? = some a ∧ a.1.name = fileName i id ∧ a.2.name = fileName i id' := by
  obtain ⟨i, hi, rfl⟩ := List.mem_iff_getElem.mp ha
  rw [List.length_zip] at hi
  have hx : i < (xs.map File.name).length := by rw [List.length_map]; omega
  have hy : i < (ys.map File.name).length := by rw [List.length_map]; omega
  have name : (xs.map File.name)[i] = xs[i].name := List.getElem_map _
  have name' : (ys.map File.name)[i] = ys[i].name := List.getElem_map _
  simp only [named, named', List.getElem_mapIdx] at name name'
  exact ⟨i, _, _, List.getElem?_eq_getElem _, by rw [List.getElem_zip, name], by rw [List.getElem_zip, name']⟩

/-- Files that are written one beside the other are told one beside the other, however many there are. -/
theorem Numbered.forall₂_ofThread {R : File → File → Prop} (order : f.Numbered) (order' : f'.Numbered)
    (h : List.Forall₂ R (part File.thread f.files thread) (part File.thread f'.files thread)) :
    List.Forall₂ R (f.ofThread thread) (f'.ofThread thread) := by
  obtain ⟨ids, named⟩ := order.named thread
  obtain ⟨ids', named'⟩ := order'.named thread
  rw [order.ofThread_eq_mergeSort, order'.ofThread_eq_mergeSort]
  refine forall₂_mergeSort h fun a ha b hb => ?_
  obtain ⟨i, id, id', hi, name, name'⟩ := name_of_mem_zip named named' ha
  obtain ⟨j, jd, jd', hj, later, later'⟩ := name_of_mem_zip named named' hb
  rw [decide_eq_decide, ← Std.not_lt, ← Std.not_lt]
  by_cases same : i = j
  · subst same
    cases hi.symm.trans hj
    simp
  · rw [name, later, name', later']
    exact not_congr (fileName_lt_iff (Ne.symm same) _ _ _ _)

end Files

theorem Copies.load (h : Copies thread s s') (tidy : s.Tidy n) (tidy' : s'.Tidy m) :
    Both (Option.Rel Checkpoint.Marked) (s.load thread) (s'.load thread) := by
  cases h with
  | memory h => exact .ok (getLast?_of_forall₂ h)
  | @table t t' h =>
    cases tidy with | table order =>
    cases tidy' with | table order' =>
    have told : ∀ t : Table, t.load thread = (t.ofThread thread).getLast?.mapM Table.readRow := by
      intro t
      rw [Table.load]
      cases (t.ofThread thread).getLast? <;> rfl
    rw [Store.load, Store.load, told, told, order.ofThread_eq, order'.ofThread_eq]
    exact last_copied h
  | @files f f' h =>
    cases tidy with | files order =>
    cases tidy' with | files order' =>
    have told : ∀ f : Files, f.load thread =
        Files.checkThread thread >>= fun _ => (f.ofThread thread).getLast?.mapM f.readFile := by
      intro f
      rw [Files.load]
      cases (f.ofThread thread).getLast? <;> rfl
    have sorted := order.forall₂_ofThread order' h
    rw [Store.load, Store.load, told, told]
    exact (Both.refl (S := Eq) (fun _ => rfl) _).bind fun _ => last_copied sorted

theorem Copies.list (h : Copies thread s s') (tidy : s.Tidy n) (tidy' : s'.Tidy m) :
    Both (List.Forall₂ Checkpoint.Marked) (s.list thread) (s'.list thread) := by
  cases h with
  | memory h => exact .ok h
  | @table t t' h =>
    cases tidy with | table order =>
    cases tidy' with | table order' =>
    rw [Store.list, Store.list, Table.list, Table.list, order.ofThread_eq, order'.ofThread_eq]
    exact all_copied h
  | @files f f' h =>
    cases tidy with | files order =>
    cases tidy' with | files order' =>
    have sorted := order.forall₂_ofThread order' h
    exact (Both.refl (S := Eq) (fun _ => rfl) _).bind fun _ => all_copied sorted

/-! ### Deleting copies -/

theorem Copies.delete (h : Copies thread s s') (tidy : s.Tidy n) (tidy' : s'.Tidy m) :
    Both (fun x y => Copies thread x.1 y.1 ∧ x.2 = y.2) (s.delete thread) (s'.delete thread) := by
  cases h with
  | memory h =>
    refine .ok ⟨.memory ?_, h.length_eq⟩
    rw [ofThread_without, ofThread_without]
    exact .nil
  | @table t t' h =>
    cases tidy with | table order =>
    cases tidy' with | table order' =>
    refine .ok ⟨.table ?_, ?_⟩
    · simp only [part_delete, if_true]
      exact .nil
    · show (t.ofThread thread).length = (t'.ofThread thread).length
      rw [order.ofThread_eq, order'.ofThread_eq, h.length_eq]
  | @files f f' h =>
    cases tidy with | files order =>
    cases tidy' with | files order' =>
    simp only [Store.delete, Files.delete]
    cases Files.checkThread thread with
    | error e => exact .error e
    | ok _ =>
      refine .ok ⟨.files ?_, ?_⟩
      · simp only [part_delete, if_true]
        exact .nil
      · show (f.ofThread thread).length = (f'.ofThread thread).length
        rw [order.length_ofThread, order'.length_ofThread, h.length_eq]

/-- Copies of a thread stay whatever becomes of other threads. -/
theorem Copies.of_samePart (h : Copies thread s s') (same : SamePart thread s u) : Copies thread u s' := by
  cases same with
  | limited => cases h
  | memory same =>
    cases h with | memory h =>
    exact .memory (same ▸ h)
  | table same =>
    cases h with | table h =>
    exact .table (same ▸ h)
  | files _ _ same =>
    cases h with | files h =>
    exact .files (same ▸ h)

/-! ### Writing copies -/

theorem Table.save_drawn {t : Table} (ids : ∀ r ∈ t.rows, ∃ k < n, r.id = (Surroundings.drawnId k).text)
    (drawn : c.Drawn n thread) (room : n < 2 ^ 63) : t.save c = Payload.ofCheckpoint c >>= fun p =>
      if fitsColumn c.step then .ok (t.added c p) else .error tooLarge := by
  have fits : exceedsTime c.timestamp = false := by
    simp [drawn.timestamp, exceedsTime, fitsColumn]
    omega
  have timed : takesTime c.timestamp = true := by
    rw [drawn.timestamp]
    rfl
  have fresh : (t.rows.any fun r => r.id == c.id.text) = false := by
    rw [List.any_eq_false]
    intro r hr
    obtain ⟨k, earlier, id⟩ := ids r hr
    rw [id, drawn.id, beq_iff_eq]
    intro same
    have := Surroundings.drawnId_inj (by omega) (by omega) same
    omega
  unfold Table.save
  refine congrArg _ (funext fun p => ?_)
  rw [fits, timed, fresh]
  cases fitsColumn c.step <;> rfl

theorem Files.write_drawn (f : Files) (drawn : c.Drawn n thread) : f.write c =
    match Payload.ofCheckpoint c, checkThread thread with
    | .error e, _ | .ok _, .error e => (f, .error e)
    | .ok p, .ok _ => (f.added c p, .ok ()) := by
  have text : c.thread.text = thread := by rw [drawn.own]; rfl
  have whole : c.id.text.contains '/' = false := drawnId_noSlash drawn.id
  rw [Files.write, text, whole]
  cases Payload.ofCheckpoint c with
  | error e => rfl
  | ok p =>
    simp only [Files.added, Files.fileOf, text]
    cases checkThread thread <;> rfl

/-- Checkpoints that differ in their marks are written side by side, or refused for the same reason. -/
theorem Copies.write (h : Copies thread s s') (tidy : s.Tidy n) (tidy' : s'.Tidy m) (marked : c.Marked c')
    (drawn : c.Drawn n thread) (drawn' : c'.Drawn m thread) (fewer : m ≤ n)
    (room : ∀ t, s = .table t → n < 2 ^ 63) :
    Copies thread (s.write c).1 (s'.write c').1 ∧ Both (fun _ _ => True) (s.write c).2 (s'.write c').2 := by
  have text : c.thread.text = thread := by rw [drawn.own]; rfl
  have text' : c'.thread.text = thread := by rw [drawn'.own]; rfl
  have written := Payload.ofCheckpoint_marked marked drawn drawn'
  have step : c'.step = c.step := by rw [marked]
  cases h with
  | memory h =>
    refine ⟨.memory ?_, .ok trivial⟩
    rw [ofThread_append, ofThread_append, Checkpoint.isOf_eq drawn.own, Checkpoint.isOf_eq drawn'.own]
    simp only [beq_self_eq_true, if_true]
    exact List.rel_append h (.cons marked .nil)
  | @table t t' h =>
    cases tidy with | table _ ids =>
    cases tidy' with | table _ ids' =>
    have small := room t rfl
    simp only [Store.write, Store.save]
    rw [Table.save_drawn ids drawn small, Table.save_drawn ids' drawn' (Nat.lt_of_le_of_lt fewer small), step]
    generalize Payload.ofCheckpoint c = x at written ⊢
    generalize Payload.ofCheckpoint c' = y at written ⊢
    cases written with
    | error f => exact ⟨.table h, .error f⟩
    | @ok p q copied =>
      cases Table.fitsColumn c.step with
      | false => exact ⟨.table h, .error _⟩
      | true =>
        refine ⟨.table ?_, .ok trivial⟩
        simp only [Table.added, part_append, text, text', if_true]
        exact List.rel_append h (.cons copied .nil)
  | @files f f' h =>
    cases tidy with | files order =>
    cases tidy' with | files order' =>
    simp only [Store.write]
    rw [Files.write_drawn f drawn, Files.write_drawn f' drawn']
    generalize Payload.ofCheckpoint c = x at written ⊢
    generalize Payload.ofCheckpoint c' = y at written ⊢
    cases written with
    | error e => exact ⟨.files h, .error e⟩
    | @ok p q copied =>
      cases Files.checkThread thread with
      | error e => exact ⟨.files h, .error e⟩
      | ok _ =>
        refine ⟨.files ?_, .ok trivial⟩
        simp only [order.files_added, order'.files_added, part_append, Files.fileOf, text, text', if_true]
        exact List.rel_append h (.cons copied .nil)

end Store

end Workflow
