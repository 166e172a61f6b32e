import Workflow.Proofs.Ordering
import Workflow.Proofs.Written

/-! # Reading checkpoints from anything

Any value at all is read as a checkpoint, which is then read back from what is written of it, or is refused as a
checkpoint that is malformed; so is any text in a store, JSON or not (`Checkpoint.read_or_refused`). What passes through
is the fault of a single kind of document, one whose count of steps is infinite (`Checkpoint.endless_escapes`), and those
of a content that can be read as no value: of octets that are no text, and of a number that is too long. -/

namespace Workflow

/-! ### Floats without a value -/

open Float.Model.UnpackedFloat in
/-- Bits whose field of the exponent is full are those of an infinite number, or of no number. -/
theorem Number.unpackExponent_full_iff (b : BitVec Float.Model.Format.binary64.numBits) :
    unpackExponent b = -1#_ ↔ (unpack .binary64 b).isInf = true ∨ (unpack .binary64 b).isNaN = true := by
  have number {f : Float.Model.UnpackedFloat} (hf : f.isInf = false ∧ f.isNaN = false) :
      ¬(f.isInf = true ∨ f.isNaN = true) := by
    rw [hf.1, hf.2]
    exact not_or.mpr ⟨Bool.false_ne_true, Bool.false_ne_true⟩
  by_cases full : unpackExponent b = -1#_
  · refine iff_of_true full ?_
    rw [show unpack .binary64 b = _ from if_pos full]
    by_cases blank : unpackMantissa b = 0#_
    · rw [if_pos blank]
      exact .inl rfl
    · rw [if_neg blank]
      exact .inr rfl
  · refine iff_of_false full (number ?_)
    rw [show unpack .binary64 b = _ from if_neg full]
    by_cases low : unpackExponent b = 0#_
    · rw [if_pos low]
      by_cases blank : unpackMantissa b = 0#_
      · rw [dif_pos blank]
        exact ⟨rfl, rfl⟩
      · rw [dif_neg blank]
        exact ⟨rfl, rfl⟩
    · rw [if_neg low]
      exact ⟨rfl, rfl⟩

/-- The field of the exponent is full exactly if the number is infinite or no number. -/
theorem Number.exponent_full_iff (x : Float) :
    x.toBits.toNat / Nat.pow 2 52 % Nat.pow 2 11 = 2047 ↔ x.isInf = true ∨ x.isNaN = true := by
  have bits : x.toBits.toNat = x.toModel.toBits.toBitVec.toNat := rfl
  have field : @Float.Model.UnpackedFloat.unpackExponent Float.Model.Format.binary64
      x.toModel.toBits.toBitVec = -1#_ ↔ x.toBits.toNat / Nat.pow 2 52 % Nat.pow 2 11 = 2047 := by
    rw [bits, ← BitVec.toNat_inj]
    simp [Float.Model.UnpackedFloat.unpackExponent, BitVec.extractLsb, Nat.shiftRight_eq_div_pow]
  exact field.symm.trans (Number.unpackExponent_full_iff _)

theorem Dyadic.ofFloat?_eq_none_iff (x : Float) : ofFloat? x = none ↔ x.isInf = true ∨ x.isNaN = true := by
  rw [← Number.exponent_full_iff, ofFloat?]
  split
  · simp_all
  · split <;> simp_all

theorem Number.not_isInf_of_isNaN {x : Float} (h : x.isNaN = true) : x.isInf = false := by
  change x.toModel.unpack.isNaN = true at h
  show x.toModel.unpack.isInf = false
  cases hx : x.toModel.unpack <;> rw [hx] at h
  case notANumber => rfl
  all_goals cases h

/-! ### Faults of members -/

/-- A fault that tells of a checkpoint which is malformed. -/
def Fault.IsMisfit (f : Fault) : Prop := ∃ t m, f = .plain t m ∧ (t = .key ∨ t = .type ∨ t.isValue = true)

/-- What is told of an infinite number that should be whole. -/
def Fault.endless : Fault := .plain .overflow "cannot convert float infinity to integer"

theorem Fault.isMisfit_key (v : Value) : (key v).IsMisfit := ⟨_, _, rfl, .inl rfl⟩

theorem Fault.isMisfit_type (m : String) : (type m).IsMisfit := ⟨_, _, rfl, .inr (.inl rfl)⟩

theorem Fault.isMisfit_value (m : String) : (value m).IsMisfit := ⟨_, _, rfl, .inr (.inr rfl)⟩

theorem Checkpoint.isCheckpoint_malformed {f : Fault} (h : f.IsMisfit) : (malformed f).IsCheckpoint := by
  obtain ⟨t, m, rfl, ht⟩ := h
  have told : (t == Trouble.key || t == .type || t.isValue) = true := by
    rcases ht with rfl | rfl | ht
    · rfl
    · rfl
    · rw [ht, Bool.or_true]
  rw [malformed, if_pos told]
  exact ⟨_, rfl, rfl⟩

namespace Value

variable {v w : Value} {f : Fault} {name : String}

theorem item_error (h : v.item (.str name) = .error f) : f.IsMisfit := by
  cases v with
  | mapping es =>
    rw [item_mapping] at h
    split at h <;> cases h
    exact Fault.isMisfit_key _
  | list | tuple | str | bytes | null | undefined | bool | int | float | object | kind =>
    cases h
    exact Fault.isMisfit_type _

theorem item_eq_ok (h : v.item (.str name) = .ok w) : v.get? name = some w := by
  cases v with
  | mapping es =>
    rw [item_mapping] at h
    split at h
    · rename_i found
      cases h
      exact found
    · cases h
  | list | tuple | str | bytes | null | undefined | bool | int | float | object | kind => cases h

theorem item_of_get? (h : v.get? name = some w) : v.item (.str name) = .ok w := by
  cases v with
  | mapping es => rw [item_mapping, h]
  | list | tuple | str | bytes | null | undefined | bool | int | float | object | kind => cases h

theorem items_error (h : v.items = .error f) : f.IsMisfit := by
  rw [items] at h
  split at h <;> cases h
  exact Fault.isMisfit_type _

/-- The value is an infinite number. -/
def IsEndless (v : Value) : Prop := ∃ x : Float, v = .float x ∧ x.isInf = true

theorem whole_of_isEndless (h : v.IsEndless) : v.whole = .error .endless := by
  obtain ⟨x, rfl, hx⟩ := h
  have none : Dyadic.ofFloat? x = none := (Dyadic.ofFloat?_eq_none_iff x).mpr (.inl hx)
  have number : x.isNaN = false := by
    cases hn : x.isNaN with
    | false => rfl
    | true => rw [Number.not_isInf_of_isNaN hn] at hx; cases hx
  simp only [whole, none, number]
  rfl

theorem wholeOf_error {unread : Fault} {cs : List Char} (hu : unread.IsMisfit) (h : wholeOf unread cs = .error f) :
    f.IsMisfit := by
  simp only [wholeOf] at h
  split at h
  · cases h
    exact Fault.isMisfit_value _
  · split at h <;> cases h
    exact hu

/-- Of all values that stand for no whole number, the infinite ones alone are no misfits. -/
theorem whole_error (h : v.whole = .error f) : f.IsMisfit ∨ v.IsEndless ∧ f = .endless := by
  cases v with
  | int | bool => cases h
  | float x =>
    simp only [whole] at h
    split at h
    · cases h
    · rename_i none
      split at h
      · cases h
        exact .inl (Fault.isMisfit_value _)
      · rename_i number
        cases h
        have infinite : x.isInf = true := ((Dyadic.ofFloat?_eq_none_iff x).mp none).resolve_right number
        exact .inr ⟨⟨x, rfl, infinite⟩, rfl⟩
  | str | bytes => exact .inl (wholeOf_error (Fault.isMisfit_value _) h)
  | list | tuple | mapping | null | undefined | object | kind =>
    cases h
    exact .inl (Fault.isMisfit_type _)

end Value

theorem RunStatus.ofValue_error {v : Value} {f : Fault} (h : ofValue v = .error f) : f.IsMisfit := by
  rw [ofValue] at h
  split at h <;> cases h
  exact Fault.isMisfit_value _

theorem InterruptKind.ofValue_error {v : Value} {f : Fault} (h : ofValue v = .error f) : f.IsMisfit := by
  rw [ofValue] at h
  split at h <;> cases h
  exact Fault.isMisfit_value _

theorem Interrupt.ofValue_error {v : Value} {f : Fault} (h : ofValue v = .error f) : f.IsMisfit := by
  rcases bind_eq_error.mp h with h | ⟨node, -, h⟩
  · exact Value.item_error h
  · rcases bind_eq_error.mp h with h | ⟨kind, -, h⟩
    · exact InterruptKind.ofValue_error h
    · cases h

/-! ### Checkpoints -/

namespace Checkpoint

variable {v : Value} {c : Checkpoint} {f : Fault}

/-- The members that are read before the count of steps. -/
def leading : List String := ["thread_id", "graph_name", "current_node", "state"]

/-- The document of a checkpoint of the current version, whose count of steps is infinite. -/
structure Endless (v : Value) : Prop where
  current : (v.getD "version").equal checkpointVersion = true
  leading : ∀ name ∈ leading, (v.get? name).isSome = true
  step : ∃ w, v.get? "step" = some w ∧ w.IsEndless

/-- What the members of a document can be refused for. -/
theorem ofMembers_error {version : Value} (h : ofMembers version v = .error f) : f.IsMisfit ∨
    (∀ name ∈ leading, (v.get? name).isSome = true) ∧ (∃ w, v.get? "step" = some w ∧ w.IsEndless) ∧ f = .endless := by
  have there : ∀ {name w}, v.item (.str name) = .ok w → (v.get? name).isSome = true := fun hw => by
    rw [Value.item_eq_ok hw]
    rfl
  rcases bind_eq_error.mp h with h | ⟨thread, hthread, h⟩
  · exact .inl (Value.item_error h)
  rcases bind_eq_error.mp h with h | ⟨graph, hgraph, h⟩
  · exact .inl (Value.item_error h)
  rcases bind_eq_error.mp h with h | ⟨node, hnode, h⟩
  · exact .inl (Value.item_error h)
  rcases bind_eq_error.mp h with h | ⟨state, hstate, h⟩
  · exact .inl (Value.item_error h)
  rcases bind_eq_error.mp h with h | ⟨given, hgiven, h⟩
  · exact .inl (Value.item_error h)
  rcases bind_eq_error.mp h with h | ⟨step, -, h⟩
  · refine (Value.whole_error h).imp_right ?_
    rintro ⟨infinite, rfl⟩
    refine ⟨?_, ⟨given, Value.item_eq_ok hgiven, infinite⟩, rfl⟩
    simp only [leading, List.forall_mem_cons, List.not_mem_nil, false_imp_iff, implies_true, and_true]
    exact ⟨there hthread, there hgraph, there hnode, there hstate⟩
  rcases bind_eq_error.mp h with h | ⟨named, -, h⟩
  · exact .inl (Value.item_error h)
  rcases bind_eq_error.mp h with h | ⟨status, -, h⟩
  · exact .inl (RunStatus.ofValue_error h)
  -- Whatever the pending request is, the same members come after it.
  have rest : ∀ {interrupt : Option Interrupt}, (do
      let history ← ((v.get? "node_history").getD (.list [])).items
      let id ← v.item (.str "checkpoint_id")
      let timestamp ← v.item (.str "timestamp")
      return { thread, graph, node, state, step, status, interrupt, history, error := v.getD "error", id, timestamp
               version, metadata := (v.get? "metadata").getD (.mapping []) : Checkpoint }) = .error f → f.IsMisfit := by
    intro interrupt h
    rcases bind_eq_error.mp h with h | ⟨history, -, h⟩
    · exact Value.items_error h
    rcases bind_eq_error.mp h with h | ⟨id, -, h⟩
    · exact Value.item_error h
    rcases bind_eq_error.mp h with h | ⟨timestamp, -, h⟩
    · exact Value.item_error h
    cases h
  change (if (v.getD "pending_interrupt").truthy then _ else _) = _ at h
  split at h
  · rcases bind_eq_error.mp h with h | ⟨interrupt, -, h⟩
    · cases hi : Interrupt.ofValue (v.getD "pending_interrupt") with
      | ok i =>
        rw [hi] at h
        cases h
      | error g =>
        rw [hi] at h
        cases h
        exact .inl (Interrupt.ofValue_error hi)
    · exact .inl (rest h)
  · exact .inl (rest h)

theorem ofMembers_of_endless (h : Endless v) (version : Value) : ofMembers version v = .error .endless := by
  have member : ∀ name ∈ leading, ∃ w, v.item (.str name) = .ok w := by
    intro name hname
    obtain ⟨w, hw⟩ := Option.isSome_iff_exists.mp (h.leading name hname)
    exact ⟨w, Value.item_of_get? hw⟩
  simp only [leading, List.forall_mem_cons, List.not_mem_nil, false_imp_iff, implies_true, and_true] at member
  obtain ⟨⟨thread, hthread⟩, ⟨graph, hgraph⟩, ⟨node, hnode⟩, ⟨state, hstate⟩⟩ := member
  obtain ⟨given, found, infinite⟩ := h.step
  refine bind_eq_error.mpr (.inr ⟨thread, hthread, ?_⟩)
  refine bind_eq_error.mpr (.inr ⟨graph, hgraph, ?_⟩)
  refine bind_eq_error.mpr (.inr ⟨node, hnode, ?_⟩)
  refine bind_eq_error.mpr (.inr ⟨state, hstate, ?_⟩)
  refine bind_eq_error.mpr (.inr ⟨given, Value.item_of_get? found, ?_⟩)
  exact bind_eq_error.mpr (.inl (Value.whole_of_isEndless infinite))

theorem ofValue_of_endless (h : Endless v) : ofValue v = .error .endless := by
  cases v with
  | mapping es =>
    show (if _ then _ else _) = _
    rw [if_pos h.current, ofMembers_of_endless h]
    rfl
  | list | tuple | str | bytes | null | undefined | bool | int | float | object | kind =>
    obtain ⟨_, ⟨⟩, -⟩ := h.step

/-- The members of a document decide if it has the current version; any other value is refused at once. -/
theorem ofValue_cases (v : Value) : (v.getD "version").equal checkpointVersion = true ∧
      ofValue v = (ofMembers (v.getD "version") v).mapError malformed ∨
    ∃ m, ofValue v = .error (.failure (.checkpoint m)) := by
  cases v with
  | mapping es =>
    by_cases current : ((Value.mapping es).getD "version").equal checkpointVersion = true
    · exact .inl ⟨current, if_pos current⟩
    · exact .inr ⟨_, if_neg current⟩
  | list | tuple | str | bytes | null | undefined | bool | int | float | object | kind => exact .inr ⟨_, rfl⟩

/-- A document that is refused is malformed, or has no end of steps. -/
theorem ofValue_error (h : ofValue v = .error f) : f.IsCheckpoint ∨ Endless v ∧ f = .endless := by
  rcases ofValue_cases v with ⟨current, members⟩ | ⟨m, refused⟩
  · rw [members] at h
    cases hm : ofMembers (v.getD "version") v with
    | ok c =>
      rw [hm] at h
      cases h
    | error g =>
      rw [hm] at h
      cases h
      rcases ofMembers_error hm with misfit | ⟨leading, step, rfl⟩
      · exact .inl (isCheckpoint_malformed misfit)
      · exact .inr ⟨⟨current, leading, step⟩, rfl⟩
  · cases refused.symm.trans h
    exact .inl ⟨_, rfl, rfl⟩

theorem version_of_ofMembers {version : Value} (h : ofMembers version v = .ok c) : c.version = version := by
  obtain ⟨thread, -, h⟩ := bind_eq_ok.mp h
  obtain ⟨graph, -, h⟩ := bind_eq_ok.mp h
  obtain ⟨node, -, h⟩ := bind_eq_ok.mp h
  obtain ⟨state, -, h⟩ := bind_eq_ok.mp h
  obtain ⟨given, -, h⟩ := bind_eq_ok.mp h
  obtain ⟨step, -, h⟩ := bind_eq_ok.mp h
  obtain ⟨named, -, h⟩ := bind_eq_ok.mp h
  obtain ⟨status, -, h⟩ := bind_eq_ok.mp h
  change (if (v.getD "pending_interrupt").truthy then _ else _) = _ at h
  split at h <;>
  · obtain ⟨interrupt, -, h⟩ := bind_eq_ok.mp h
    obtain ⟨history, -, h⟩ := bind_eq_ok.mp h
    obtain ⟨id, -, h⟩ := bind_eq_ok.mp h
    obtain ⟨timestamp, -, h⟩ := bind_eq_ok.mp h
    cases h
    rfl

/-- What was read is read again from what is written of it. -/
theorem read_back (h : ofValue v = .ok c) : ofValue c.toValue = .ok c := by
  refine ofValue_toValue_of_current ?_
  rcases ofValue_cases v with ⟨current, members⟩ | ⟨m, refused⟩
  · rw [members] at h
    cases hm : ofMembers (v.getD "version") v with
    | ok d =>
      rw [hm] at h
      cases h
      rw [version_of_ofMembers hm]
      exact current
    | error g =>
      rw [hm] at h
      cases h
  · cases refused.symm.trans h

end Checkpoint

/-! ### Stores -/

namespace Store

variable {f : Fault} {thread : String}

/-- The text that is kept, of octets the one that they stand for. -/
def Payload.text? : Payload → Option String
  | .document _ => none
  | .text s => some s
  | .octets bs => (Text.decode bs).toOption

/-- The document that is kept, as such or in a JSON text. -/
def Payload.document? : Payload → Option Value
  | .document v => some v
  | p => p.text?.bind fun s => (Json.read s).toOption

theorem Payload.document?_of_text? {p : Payload} {s : String} (h : p.text? = some s) :
    p.document? = (Json.read s).toOption := by
  cases p with
  | document => cases h
  | text | octets => rw [document?, h, Option.bind_some]; exact fun _ hv => nomatch hv

/-- The faults of reading that are none of checkpoints: that of a document with an infinite count of steps, of a JSON
text with a whole number of too many digits, and of octets that are no text. -/
inductive Payload.Escapes (p : Payload) (unreadable : Unreadable) : Fault → Prop
  | endless {v : Value} (kept : p.document? = some v) (h : Checkpoint.Endless v) : Escapes p unreadable .endless
  | tooLong {s : String} {digits : Nat} (kept : p.text? = some s) (h : Json.read? s.toList = .error (.tooLong digits)) :
    Escapes p unreadable (.value (Number.tooManyDigits digits))
  | octets {bs : List UInt8} {problem : Text.OctetProblem} (kept : p = .octets bs)
    (h : Text.decode bs = .error problem) : Escapes p unreadable (unreadable.octets bs problem)

/-- What is kept of the last checkpoint of a thread, and what is told of it if it is none. -/
def lastPayload? (s : Store) (thread : String) : Option (Payload × Payload.Unreadable) :=
  match s with
  | .table t => (t.ofThread thread).getLast?.map fun r => (r.payload, Table.unreadable)
  | .files s => (s.ofThread thread).getLast?.map fun f => (f.payload, s.unreadable f)
  | .memory _ | .limited _ _ _ => none

section
variable {p : Payload} {unreadable : Payload.Unreadable}

theorem Payload.readText_error {s : String} (kept : p.text? = some s) (h : readText unreadable s = .error f) :
    f.IsCheckpoint ∨ p.Escapes unreadable f := by
  rw [readText] at h
  split at h
  · rename_i v hv
    have document : p.document? = some v := by rw [document?_of_text? kept, hv]; rfl
    exact (Checkpoint.ofValue_error h).imp_right fun ⟨endless, same⟩ => same ▸ .endless document endless
  · cases h
    exact .inl ⟨_, rfl, rfl⟩
  · rename_i g notJson hg
    cases h
    rw [Json.read] at hg
    split at hg
    · cases hg
    · rename_i problem unread
      cases hg
      cases problem with
      | malformed => exact absurd rfl (notJson _)
      | tooLong digits => exact .inr (.tooLong kept unread)

theorem Payload.read_error (h : p.read unreadable = .error f) : f.IsCheckpoint ∨ p.Escapes unreadable f := by
  cases p with
  | document v => exact (Checkpoint.ofValue_error h).imp_right fun ⟨endless, same⟩ => same ▸ .endless rfl endless
  | text s => exact readText_error rfl h
  | octets bs =>
    rw [read] at h
    split at h
    · rename_i s hs
      exact readText_error (by rw [text?, hs]; rfl) h
    · rename_i problem hp
      cases h
      exact .inr (.octets rfl hp)

end

theorem Files.checkThread_error (h : Files.checkThread thread = .error f) : f.IsCheckpoint := by
  rw [Files.checkThread] at h
  split at h <;> cases h
  exact ⟨_, rfl, rfl⟩

/-- The last payload of the thread is refused with a fault that is none of checkpoints. -/
def Escapes (s : Store) (thread : String) (f : Fault) : Prop :=
  ∃ p unreadable, s.lastPayload? thread = some (p, unreadable) ∧ p.Escapes unreadable f

/-- Whatever a store holds, what it refuses to load is a checkpoint that is malformed, or one of a few that escape. -/
theorem load_error {s : Store} (h : s.load thread = .error f) : f.IsCheckpoint ∨ s.Escapes thread f := by
  cases s with
  | memory | limited => cases h
  | table t =>
    simp only [Store.load, Table.load] at h
    split at h
    · rename_i r hr
      cases hread : Table.readRow r with
      | ok c =>
        rw [hread] at h
        cases h
      | error g =>
        rw [hread] at h
        cases h
        refine (Payload.read_error hread).imp_right fun escapes => ⟨_, _, ?_, escapes⟩
        rw [lastPayload?, hr]
        rfl
    · cases h
  | files s =>
    rcases bind_eq_error.mp h with h | ⟨-, -, h⟩
    · exact .inl (Files.checkThread_error h)
    · split at h
      · rename_i file hfile
        rcases bind_eq_error.mp h with h | ⟨c, -, h⟩
        · refine (Payload.read_error h).imp_right fun escapes => ⟨_, _, ?_, escapes⟩
          rw [lastPayload?, hfile]
          rfl
        · cases h
      · cases h

end Store

/-- Any value is read as a checkpoint that is read back from what is written of it, or refused as a malformed one; and
whatever a store keeps in the place of a checkpoint, a load answers or is refused in the same way. Excepted are the
document of a checkpoint that has an infinite count of steps, and what is kept in a store that can be read as no value
at all: octets that are no text, and JSON with a whole number of too many digits. -/
theorem Checkpoint.read_or_refused (v : Value) (s : Store) (thread : String) :
    ((∃ c, ofValue v = .ok c ∧ ofValue c.toValue = .ok c) ∨ (∃ f, ofValue v = .error f ∧ f.IsCheckpoint) ∨
      Endless v) ∧
    (ofValue v = .error .endless ↔ Endless v) ∧
    ((∃ last, s.load thread = .ok last) ∨ (∃ f, s.load thread = .error f ∧ f.IsCheckpoint) ∨
      ∃ f, s.load thread = .error f ∧ s.Escapes thread f) := by
  refine ⟨?_, ⟨?_, ofValue_of_endless⟩, ?_⟩
  · cases h : ofValue v with
    | ok c => exact .inl ⟨c, rfl, read_back h⟩
    | error f =>
      rcases ofValue_error h with told | ⟨endless, -⟩
      · exact .inr (.inl ⟨f, rfl, told⟩)
      · exact .inr (.inr endless)
  · intro h
    refine ((ofValue_error h).resolve_left ?_).1
    rintro ⟨_, ⟨⟩, -⟩
  · cases h : s.load thread with
    | ok last => exact .inl ⟨last, rfl⟩
    | error f =>
      rcases Store.load_error h with told | escapes
      · exact .inr (.inl ⟨f, rfl, told⟩)
      · exact .inr (.inr ⟨f, rfl, escapes⟩)

/-- A table that keeps a JSON text of a checkpoint with an infinite count of steps. -/
def Store.endless : Store :=
  .table
    { rows := [⟨1, "2a", "t", .float 0, .text ("\x7b\"version\": 1, \"checkpoint_id\": \"2a\", \"thread_id\": \"t\", " ++
        "\"graph_name\": \"g\", \"current_node\": \"a\", \"state\": \x7b\x7d, \"step\": Infinity, " ++
        "\"status\": \"running\", \"timestamp\": 0.0\x7d")⟩]
      next := 2 }

/-- The fault of an infinite count of steps is none of checkpoints, and it passes through a load. -/
theorem Checkpoint.endless_escapes : ∃ f, Store.endless.load "t" = .error f ∧ ¬ f.IsCheckpoint ∧
    f.name = "OverflowError" ∧ f.message = "cannot convert float infinity to integer" := by
  have told : (match Store.endless.load "t" with
      | .error f => some (f.name, f.message)
      | .ok _ => none) = some ("OverflowError", "cannot convert float infinity to integer") := by
    decide +kernel
  cases h : Store.endless.load "t" with
  | ok last =>
    rw [h] at told
    cases told
  | error f =>
    rw [h] at told
    obtain ⟨name, message⟩ := Prod.mk.inj (Option.some.inj told)
    refine ⟨f, rfl, ?_, name, message⟩
    rintro ⟨failure, rfl, kind⟩
    rw [Fault.name, kind] at name
    exact absurd name (by decide)

end Workflow
