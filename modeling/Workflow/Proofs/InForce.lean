import Workflow.Proofs.Resumed

/-! # Settings in force

A thread may be resumed by engines of other configurations than the one that started it, and each call may override
what is in force (`Launch.Chain`). What is kept with a run brings the settings of the call back that wrote it, so each
of them is as the last call had it that overrode it, or as the thread was started
(`Launch.Chain.settings_in_force`). -/

namespace Workflow

/-! ### Settings that are overridden -/

namespace Overrides

/-- The setting that is read from an override, unless it overrides nothing. -/
def given {α : Type} (read : Value → Except Fault α) (v : Value) : Option α :=
  if v.isNull then none else (read v).toOption

def limit? (o : Overrides) : Option Int := given Config.limitOf o.recursionLimit

def before? (o : Overrides) : Option (List String) := given Config.namesOf o.before

def after? (o : Overrides) : Option (List String) := given Config.namesOf o.after

def mode? (o : Overrides) : Option CheckpointMode := given CheckpointMode.ofValue o.mode

/-- The last setting that was given by the overrides of calls, or the first one of all. -/
def lastGiven {α : Type} (setting? : Overrides → Option α) (first : α) (os : List Overrides) : α :=
  (os.filterMap setting?).getLast?.getD first

theorem lastGiven_concat {α : Type} (setting? : Overrides → Option α) (first : α) (os : List Overrides)
    (o : Overrides) :
    lastGiven setting? first (os ++ [o]) = (setting? o).getD (lastGiven setting? first os) := by
  unfold lastGiven
  rw [List.filterMap_append]
  cases h : setting? o with
  | none => rw [List.filterMap_cons_none h, List.filterMap_nil, List.append_nil, Option.getD_none]
  | some a =>
    rw [List.filterMap_cons_some h, List.filterMap_nil, List.getLast?_concat, Option.getD_some, Option.getD_some]

end Overrides

namespace Config

variable {base c k : Config} {o : Overrides} {os : List Overrides}

/-- Each setting is the last one that was given, or that of the base. The nodes to pause at count as a set. -/
structure InForce (base : Config) (os : List Overrides) (c : Config) : Prop where
  limit : c.recursionLimit = Overrides.lastGiven Overrides.limit? base.recursionLimit os
  before : ∀ n, n ∈ c.before ↔ n ∈ Overrides.lastGiven Overrides.before? base.before os
  after : ∀ n, n ∈ c.after ↔ n ∈ Overrides.lastGiven Overrides.after? base.after os
  mode : c.mode = Overrides.lastGiven Overrides.mode? base.mode os

theorem choose_eq {α : Type} {a x : α} {read : Value → Except Fault α} {v : Value} (h : choose a read v = .ok x) :
    x = (Overrides.given read v).getD a := by
  unfold choose at h
  unfold Overrides.given
  split at h
  · rename_i null
    cases h
    rw [if_pos null, Option.getD_none]
  · rename_i given
    rw [if_neg given, h]
    rfl

theorem inForce_nil (base : Config) : base.InForce [] base := ⟨rfl, fun _ => .rfl, fun _ => .rfl, rfl⟩

/-- Settings in force are overridden one by one. -/
theorem InForce.override (h : base.InForce os c) (given : c.override o = .ok k) : base.InForce (os ++ [o]) k := by
  simp only [Config.override, bind_eq_ok] at given
  obtain ⟨limit, hl, before, hb, after, ha, mode, hm, same⟩ := given
  cases same
  have names {setting? : Overrides → Option (List String)} {inForce first chosen : List String}
      (same : ∀ n, n ∈ inForce ↔ n ∈ Overrides.lastGiven setting? first os)
      (chose : chosen = (setting? o).getD inForce) (n : String) :
      n ∈ chosen ↔ n ∈ Overrides.lastGiven setting? first (os ++ [o]) := by
    rw [chose, Overrides.lastGiven_concat]
    cases setting? o with
    | none => exact same n
    | some _ => exact .rfl
  refine ⟨?_, names h.before (choose_eq hb), names h.after (choose_eq ha), ?_⟩
  · rw [Overrides.lastGiven_concat, ← h.limit]
    exact choose_eq hl
  · rw [Overrides.lastGiven_concat, ← h.mode]
    exact choose_eq hm

/-- What is kept of a configuration brings its settings back, whatever those of the engine are. -/
theorem InForce.restored (h : base.InForce os c) {other : Config} (restored : other.override c.kept = .ok k) :
    base.InForce os k := by
  have positive : 0 < c.recursionLimit := by
    by_contra unbounded
    simp only [Config.override, bind_eq_ok] at restored
    obtain ⟨_, limit, -⟩ := restored
    change (if 0 < c.recursionLimit then Except.ok c.recursionLimit else Except.error _) = _ at limit
    rw [if_neg unbounded] at limit
    cases limit
  rw [override_kept other positive] at restored
  cases restored
  exact ⟨h.limit, fun n => mem_nameSet.trans (h.before n), fun n => mem_nameSet.trans (h.after n), h.mode⟩

end Config

/-! ### Chains of calls -/

/-- A thread is started, and then resumed any number of times, each time after a call that was answered that its run
    waits. The engines may be of any configurations: `base` is that of the one that starts it, and `os` are the
    overrides of the calls, of which `k` is the last. -/
inductive Launch.Chain (thread : String) (base : Config) : List Overrides → Launch → Prop
  | start {k : Launch} {input : Value} {options : CallOptions} (request : k.request = .start thread input options)
      (own : k.engine.config = base) : Chain thread base [options.overrides] k
  | resume {k k' : Launch} {os : List Overrides} {value : Value} {options : CallOptions}
      (before : Chain thread base os k)
      (follows : k'.Follows k) (request : k'.request = .resume thread value options) :
      Chain thread base (os ++ [options.overrides]) k'

namespace Engine

variable {g run : Engine} {w v : Surroundings} {e : Execution} {entry : Entry} {thread : String} {c : Config}
  {options : CallOptions}

theorem Launches.overrides_started {input : Value} (h : g.Launches w (.start thread input options) run e entry v) :
    g.config.override options.overrides = .ok run.config := by
  cases h with
  | start opening => exact (origin_of_opening opening).1

/-- A resumption takes the settings up that are told of the thread, and overrides them. -/
theorem Launches.overrides_resumed {value : Value} {d : Checkpoint}
    (h : g.Launches w (.resume thread value options) run e entry v) (last : w.store.load thread = .ok (some d))
    (told : d.metadata = c.metadata) :
    ∃ kept, g.config.override c.kept = .ok kept ∧ kept.override options.overrides = .ok run.config := by
  cases h with
  | resume resumption =>
    obtain ⟨_, kept, stored, e, hc, -, -, taken, read, restored, given, -⟩ := taken_of_resumption resumption
    have loaded := (lastCheckpoint_eq_ok_iff.mp hc).1
    rw [last] at loaded
    cases loaded
    obtain ⟨_, -, taken⟩ := bind_eq_ok.mp taken
    cases taken
    change Overrides.ofMetadata d.metadata = .ok stored at read
    rw [told, c.ofMetadata_metadata] at read
    cases read
    exact ⟨kept, restored, given⟩

end Engine

namespace Launch

variable {k : Launch} {thread : String} {base : Config} {os : List Overrides}

/-- What a call writes down of its thread, and is not of a failure, tells of the settings of its run. -/
theorem settings_written (k : Launch) {d : Checkpoint} (hd : k.left.store.Reads k.thread d) :
    k.around.store.Reads k.thread d ∨ d.status = .failed ∨ d.metadata = k.run.config.metadata := by
  obtain ⟨p, stands⟩ := k.stands
  have notes : k.run.Notes k.thread k.around.store.isDurable (fun _ => True) fun d =>
      k.around.store.Reads k.thread d ∨ d.metadata = k.run.config.metadata := by
    refine ⟨fun _ _ => trivial, fun {p e id time d} _ noted kept => .inr ?_⟩
    have same : (e.checkpoint k.run.definition.name id time).metadata = k.run.config.metadata := noted.metadata_eq
    exact (kept.mirrors.metadata (same ▸ k.run.config.exact_metadata)).trans same
  have before : k.around.store.Tracks k.thread k.around.store.isDurable fun d =>
      k.around.store.Reads k.thread d ∨ d.metadata = k.run.config.metadata :=
    { k.reached.owned with durable := rfl, shown := fun hc _ => .inl hc }
  have after := (k.launches.tracks notes trivial stands before).2
  by_cases failed : d.status = .failed
  · exact .inr (.inl failed)
  · exact (after.shown hd failed).imp_right .inr

section Chains
variable (h : Chain thread base os k)
include h

theorem Chain.thread_eq : k.thread = thread := by
  cases h with
  | start request => exact congrArg Request.thread request
  | resume _ _ request => exact congrArg Request.thread request

theorem Chain.inForce : base.InForce os k.run.config := by
  induction h with
  | start request own =>
    subst own
    exact (Config.inForce_nil _).override (Engine.Launches.overrides_started (request ▸ Launch.launches _))
  | @resume k k' os value options before follows request ih =>
    obtain ⟨r, goes, ends⟩ := k.run.run_passes k.first
    obtain ⟨d, _, _, load, -, told, -⟩ := follows.told goes (Engine.run_eq_of_goes goes ▸ ends)
    rw [before.thread_eq] at load
    obtain ⟨kept, restored, given⟩ := Engine.Launches.overrides_resumed (request ▸ k'.launches) load told
    exact (ih.restored restored).override given

/-- Each setting of the last call is as the last one had it that overrode it, or as it was for the engine that started
    the thread, and so it is told by all that the call writes down of the thread, unless it is of a failure. -/
theorem Chain.settings_in_force : base.InForce os k.run.config ∧
    ∀ d, k.left.store.Reads thread d →
      k.around.store.Reads thread d ∨ d.status = .failed ∨ d.metadata = k.run.config.metadata := by
  refine ⟨h.inForce, fun d hd => ?_⟩
  rw [← h.thread_eq] at hd ⊢
  exact k.settings_written hd

end Chains

/-- A thread that pauses before its node is resumed by an engine of another configuration, with an empty set of nodes
    to pause before and another mode. -/
theorem settings_in_force_inquiry :
    let base : Config := { before := ["ask"] }
    let started : Overrides := { recursionLimit := .int 7 }
    let resumed : Overrides := { before := .list [], mode := .str "interrupts_only" }
    ∃ k, Chain "t" base [started, resumed] k ∧ k.engine.config = { recursionLimit := 3, after := ["ask"] } ∧
      base.InForce [started, resumed] k.run.config ∧ k.run.config.recursionLimit = 7 ∧ k.run.config.before = [] ∧
      k.run.config.after = [] ∧ k.run.config.mode = .interruptsOnly ∧
      ∀ d, k.left.store.Reads "t" d →
        k.around.store.Reads "t" d ∨ d.status = .failed ∨ d.metadata = k.run.config.metadata := by
  intro base started resumed
  let g : Engine := { definition := .inquiry, config := base }
  let g' : Engine := { definition := .inquiry, config := { recursionLimit := 3, after := ["ask"] } }
  let start : Request := .start "t" .null { overrides := started }
  let resume : Request := .resume "t" (.str "yes") { overrides := resumed }
  have waits : ((g.serve {} start).2.toOption.bind id).map Outcome.status = some .paused := by decide +kernel
  have answer : ((g'.serve (g.serve {} start).1 resume).2.toOption.bind id).map Outcome.status = some .paused := by
    decide +kernel
  obtain ⟨o, ho, paused⟩ := exists_of_answer waits
  obtain ⟨o', ho', -⟩ := exists_of_answer answer
  obtain ⟨k, k', own, -, asked, own', -, asked', follows⟩ := exists_follows (w := {}) ⟨[], rfl⟩ (.unused (.inl rfl))
    ⟨Request.noConfusion, Request.noConfusion⟩ ⟨Request.noConfusion, Request.noConfusion⟩ ho paused ho'
  have chain : Chain "t" base [started, resumed] k' :=
    .resume (.start asked (congrArg Engine.config own)) follows asked'
  obtain ⟨inForce, written⟩ := chain.settings_in_force
  have none {ids : List String} (h : ∀ n, n ∈ ids ↔ n ∈ ([] : List String)) : ids = [] :=
    List.eq_nil_iff_forall_not_mem.mpr fun n hn => List.not_mem_nil ((h n).mp hn)
  have cleared : Overrides.lastGiven Overrides.before? base.before [started, resumed] = [] := by decide +kernel
  exact ⟨k', chain, congrArg Engine.config own', inForce, inForce.limit, none (cleared ▸ inForce.before),
    none inForce.after, inForce.mode, written⟩

end Launch

end Workflow
