import Workflow.Proofs.Archive
import Workflow.Proofs.Belonging
import Workflow.Proofs.Calm
import Workflow.Proofs.Running

/-! # Runs that cannot be written down

A start may be in order, and the store refuse the first checkpoint of its run (`Engine.Unwritten`). The start raises
what the store told then. It leaves the store, the requests to end and the observers of other threads as they were, but
its own observers stay registered (`Engine.left_of_unwritten`), so they are told of the next run of the thread besides
those that it is started with (`Engine.unwritten_overhears`), as often as the start was tried (`Attempted.start_eq`). -/

namespace Workflow

variable {f : Fault} {thread : String}

/-! ### What is refused leaves nothing -/

/-- A store that refuses a checkpoint that was drawn up stays as it was, with no new directory either. -/
theorem Store.write_of_refused {s : Store} {c : Checkpoint} {n : Nat} (id : c.id = Surroundings.drawnId n)
    (refused : (s.write c).2 = .error f) : (s.write c).1 = s := by
  cases s with
  | files s =>
    rw [Store.write, Files.write, Files.drawnId_noSlash id] at refused ⊢
    cases h : Payload.ofCheckpoint c with
    | error => rfl
    | ok p =>
      cases h' : Files.checkThread c.thread.text with
      | error => rfl
      | ok => rw [h, h'] at refused; cases refused
  | memory | table | limited =>
    simp only [Store.write] at refused ⊢
    split at refused
    · cases refused
    · rfl

namespace Surroundings

variable {w : Surroundings}

theorem Rests.activate_eq (h : w.Rests thread) : w.activate thread = { w with active := w.active ++ [thread] } := by
  rw [Surroundings.activate, if_neg (mt List.contains_iff_mem.mp h.inactive)]

/-- A call that changes nothing else leaves a thread at rest as it was. -/
theorem Rests.release_activate (h : w.Rests thread) : (w.activate thread).release thread = w := by
  have active : (w.active ++ [thread]).filter (fun t => t != thread) = w.active := by
    have others : w.active.filter (fun t => t != thread) = w.active :=
      List.filter_eq_self.mpr fun t ht => bne_iff_ne.mpr (ne_of_mem_of_not_mem ht h.inactive)
    rw [List.filter_append, others]
    simp
  have cancels : w.cancels.filter (fun t => t != thread) = w.cancels :=
    List.filter_eq_self.mpr fun t ht => bne_iff_ne.mpr (ne_of_mem_of_not_mem ht h.unasked)
  rw [h.activate_eq, Surroundings.release]
  simp only [active, cancels]

end Surroundings

theorem Bus.audience_subscribeAll (b : Bus) (thread other : String) (observers : List Observer) :
    (b.subscribeAll thread observers).audience other = b.audience other ++ if other = thread then observers else [] := by
  rw [Bus.subscribeAll_eq, audience, audience, List.filter_append, List.map_append]
  congr 1
  split
  · rename_i same
    subst same
    rw [List.filter_eq_self.mpr (by simp)]
    simp [Function.comp_def]
  · rename_i other
    rw [List.filter_eq_nil_iff.mpr (by simpa using fun _ _ same => other same.symm)]
    rfl

theorem Bus.subscribeAll_append (b : Bus) (thread : String) (os os' : List Observer) :
    b.subscribeAll thread (os ++ os') = (b.subscribeAll thread os).subscribeAll thread os' :=
  List.foldl_append

namespace Engine

variable {g : Engine} {w v : Surroundings} {e : Execution} {input : Value} {options : CallOptions} {overrides : Overrides}
  {os : List Observer}

/-- A checkpoint that is refused counts as drawn up, and nothing else has changed. -/
theorem save_of_refused (refused : (g.save e w).2 = .error f) :
    g.save e w = ({ w with drawn := w.drawn + 1 }, .error f) := by
  rw [Engine.save, Surroundings.save] at refused ⊢
  dsimp only at refused ⊢
  rcases write : w.store.write (e.checkpoint g.definition.name (Surroundings.drawnId w.drawn) (.int w.drawn))
    with ⟨s, f' | _⟩ <;> rw [write] at refused <;> cases refused
  have left := Store.write_of_refused (n := w.drawn) rfl (congrArg Prod.snd write)
  rw [write] at left
  rw [show s = w.store from left]
  rfl

/-- The start of the thread is in order, but the store refuses the first checkpoint of its run. -/
def Unwritten (g : Engine) (w : Surroundings) (thread : String) (input : Value) (overrides : Overrides) (f : Fault) :
    Prop :=
  ∃ config e, g.opening thread input overrides w.store = .ok (config, e) ∧ overrides.checkNames = .ok () ∧
    (g.save e w).2 = .error f

/-- All that such a start leaves is that its observers follow the thread. -/
theorem start_of_unwritten (rests : w.Rests thread) (h : g.Unwritten w thread input options.overrides f) :
    g.start thread input options w =
      ({ w with bus := w.bus.subscribeAll thread options.observers, drawn := w.drawn + 1 }, .error f) := by
  obtain ⟨config, e, opening, names, refused⟩ := h
  let followed : Surroundings := { w with bus := w.bus.subscribeAll thread options.observers }
  have rests : followed.Rests thread := ⟨rests.inactive, rests.unasked⟩
  have save : g.save e (followed.activate thread) =
      ({ followed.activate thread with drawn := w.drawn + 1 }, .error f) := by
    rw [rests.activate_eq]
    exact save_of_refused (w := { followed with active := w.active ++ [thread] }) refused
  have released : Surroundings.release { followed.activate thread with drawn := w.drawn + 1 } thread =
      { followed with drawn := w.drawn + 1 } :=
    congrArg (fun v : Surroundings => { v with drawn := w.drawn + 1 }) rests.release_activate
  have unbegun : g.begin config options.providers e (w.joined thread options.observers) =
      ({ followed.activate thread with drawn := w.drawn + 1 }, .error f) := by
    rw [begin, show g.save e (w.joined thread options.observers) = _ from save]
  simp only [start, opening, names, unbegun]
  exact Prod.ext released rfl

/-- A start that is in order does the same whether observers follow the thread before or are brought along. -/
theorem start_of_followed {x : Config × Execution} (opening : g.opening thread input options.overrides w.store = .ok x) :
    g.start thread input options { w with bus := w.bus.subscribeAll thread os } =
      g.start thread input { options with observers := os ++ options.observers } w := by
  have both : (w.bus.subscribeAll thread os).subscribeAll thread options.observers =
      w.bus.subscribeAll thread (os ++ options.observers) := (Bus.subscribeAll_append _ _ _ _).symm
  simp only [start, opening, Surroundings.joined, Surroundings.attended, both]

/-- A start that cannot be written down raises what the store told, and leaves the store, the requests to end, the
    threads that are run and the observers of other threads as they were. Its own observers stay, so a start of the
    thread that is in order from then on does what it would have done with them besides its own. -/
theorem left_of_unwritten (rests : w.Rests thread) (h : g.Unwritten w thread input options.overrides f) :
    ∃ v, g.start thread input options w = (v, .error f) ∧
      v.store = w.store ∧ v.cancels = w.cancels ∧ v.active = w.active ∧
      (∀ other, v.bus.audience other = w.bus.audience other ++ if other = thread then options.observers else []) ∧
      (options.observers = [] → v.bus = w.bus) ∧
      ∀ input' options' x, g.opening thread input' options'.overrides w.store = .ok x →
        g.start thread input' options' v =
          g.start thread input' { options' with observers := options.observers ++ options'.observers }
            { v with bus := w.bus } := by
  refine ⟨_, start_of_unwritten rests h, rfl, rfl, rfl, fun other => w.bus.audience_subscribeAll _ _ _, ?_, ?_⟩
  · intro none
    rw [none]
    rfl
  · intro input' options' x opening
    exact start_of_followed (w := { w with drawn := w.drawn + 1 }) opening

/-- An input that no durable store keeps. -/
def unkept : Value := .ofFields [("words", .list [.bytes [0]])]

/-- What a durable store tells of it. -/
def unkeptFault : Fault :=
  .failure (.checkpoint "Checkpoint for thread t is not JSON-serialisable: Object of type bytes is not JSON serializable"
    (some Store.serialisableHint))

/-- The first position of a run that gathers words in a new table. -/
theorem opening_gathering (l : Logic) (config : Config) {input : Value} (state : State)
    (merged : (Definition.gathering l).schema.initialState input = .ok state) :
    ({ definition := .gathering l, config } : Engine).opening "t" input {} (.table {}) =
      .ok (config, { thread := "t", node := "ask", state, metadata := config.metadata }) := by
  have new : (Store.table {}).load "t" = .ok none := by simp [Store.load, Store.Table.load, Store.Table.ofThread]
  rw [opening, merged, new]
  rfl

theorem unwritten_unkept : inquirer.Unwritten { store := .table {} } "t" unkept {} unkeptFault :=
  ⟨_, _, opening_gathering _ _ [("words", .list [.bytes [0]])] rfl, rfl, rfl⟩

/-- An observer of a start that could not be written down follows the thread, and the next start has it. -/
theorem left_of_unwritten_unkept :
    let a : Observer := { name := "a" }
    let w : Surroundings := { store := .table {} }
    w.Rests "t" ∧ inquirer.Unwritten w "t" unkept {} unkeptFault ∧
      ∃ v, inquirer.start "t" unkept { observers := [a] } w = (v, .error unkeptFault) ∧
        v.store = w.store ∧ v.cancels = [] ∧ v.active = [] ∧
        (∀ other, v.bus.audience other = if other = "t" then [a] else []) ∧
        inquirer.start "t" .null {} v = inquirer.start "t" .null { observers := [a] } { v with bus := {} } := by
  intro a w
  have rests : w.Rests "t" := ⟨List.not_mem_nil, List.not_mem_nil⟩
  let options : CallOptions := { observers := [a] }
  have unwritten : inquirer.Unwritten w "t" unkept options.overrides unkeptFault := unwritten_unkept
  obtain ⟨v, failed, store, cancels, active, followed, -, next⟩ := left_of_unwritten rests unwritten
  have opening : inquirer.opening "t" .null {} w.store = .ok _ := opening_gathering _ _ [("words", .list [])] rfl
  exact ⟨rests, unwritten_unkept, v, failed, store, cancels, active, followed, next .null {} _ opening⟩

/-- An observer of a start that could not be written down still follows the thread, and is told of the next run, which
    is started without observers. -/
theorem unwritten_overhears :
    let w : Surroundings := { store := .table {} }
    let v := (inquirer.start "t" unkept { observers := [{ name := "a" }] } w).1
    let told := fun w : Surroundings => w.deliveries.map fun d => (d.observer, d.event.kind)
    inquirer.Unwritten w "t" unkept {} unkeptFault ∧ w.bus.count "t" = 0 ∧ v.bus.count "t" = 1 ∧
      told (inquirer.start "t" .null {} w).1 = [] ∧
      told (inquirer.start "t" .null {} v).1 = [("a", .runStarted), ("a", .interrupted)] :=
  ⟨unwritten_unkept, by decide +kernel, by decide +kernel, by decide +kernel, by decide +kernel⟩

/-! ### Starting again and again -/

/-- The thread was started with these options, one start after another, and no run of it could be written down. -/
inductive Attempted (g : Engine) (thread : String) : Surroundings → List CallOptions → Surroundings → Prop
  | none {w : Surroundings} : Attempted g thread w [] w
  | start {w v : Surroundings} {input : Value} {options : CallOptions} {later : List CallOptions} {f : Fault}
      (h : g.Unwritten w thread input options.overrides f)
      (rest : Attempted g thread (g.start thread input options w).1 later v) : Attempted g thread w (options :: later) v

variable {tries : List CallOptions}

theorem Attempted.left (h : g.Attempted thread w tries v) (rests : w.Rests thread) :
    v = { w with bus := w.bus.subscribeAll thread (tries.flatMap CallOptions.observers)
                 drawn := w.drawn + tries.length } := by
  induction h with
  | none => rfl
  | @start w v input options later f h rest ih =>
    rw [start_of_unwritten rests h] at ih
    rw [ih ⟨rests.inactive, rests.unasked⟩, List.flatMap_cons, Bus.subscribeAll_append, List.length_cons,
      Nat.add_assoc w.drawn, Nat.add_comm 1]

/-- After any number of starts that could not be written down, one that is in order does what it would have done with
    the observers of all of them, each as often as it was brought along. -/
theorem Attempted.start_eq (h : g.Attempted thread w tries v) (rests : w.Rests thread) {x : Config × Execution}
    (opening : g.opening thread input options.overrides w.store = .ok x) :
    g.start thread input options v =
      g.start thread input { options with observers := tries.flatMap CallOptions.observers ++ options.observers }
        { w with drawn := w.drawn + tries.length } := by
  rw [h.left rests]
  exact start_of_followed (w := { w with drawn := w.drawn + tries.length }) opening

end Engine

end Workflow
