import Mathlib.Data.List.Forall2
import Mathlib.Data.List.Nodup
import Mathlib.Data.List.Perm.Basic
import Workflow.Proofs.Kept
import Workflow.Schema.Basic

/-! # Updates of different fields

An update succeeds exactly if each of its entries names a field that takes its value, merged into the current one, and
then it sets these fields (`Schema.applyValue_eq_ok_iff`). Entries of different names do not see each other, so an
update can be made in parts, in either order (`Schema.updates_independent`). -/

namespace Workflow

namespace Fields

variable {fs gs hs : Fields} {name other : String} {v w : Value}

/-! ### Setting several fields -/

theorem setAll_cons (g : String × Value) : fs.setAll (g :: gs) = (fs.set g.1 g.2).setAll gs := rfl

theorem setAll_append : fs.setAll (gs ++ hs) = (fs.setAll gs).setAll hs := List.foldl_append

theorem names_setAll (there : ∀ g ∈ gs, g.1 ∈ fs.names) : (fs.setAll gs).names = fs.names := by
  induction gs generalizing fs with
  | nil => rfl
  | cons g gs ih =>
    obtain ⟨first, rest⟩ := List.forall_mem_cons.mp there
    have same := names_set_of_mem g.2 first
    rw [setAll_cons, ih (by rw [same]; exact rest), same]

theorem get?_setAll_of_not_mem (h : name ∉ gs.names) : (fs.setAll gs).get? name = fs.get? name := by
  induction gs generalizing fs with
  | nil => rfl
  | cons g gs ih =>
    rw [names, List.map_cons, List.mem_cons, not_or] at h
    rw [setAll_cons, ih h.2, get?_set_of_ne _ _ h.1]

theorem get?_setAll_of_mem (distinct : gs.names.Nodup) (h : (name, v) ∈ gs) :
    (fs.setAll gs).get? name = some v := by
  induction gs generalizing fs with
  | nil => cases h
  | cons g gs ih =>
    obtain ⟨new, distinct⟩ := List.nodup_cons.mp distinct
    rw [setAll_cons]
    rcases List.mem_cons.mp h with rfl | h
    · rw [get?_setAll_of_not_mem new, get?_set_self]
    · exact ih distinct h

/-- Two fields of which one is in its place are set in either order. -/
theorem set_comm (there : name ∈ fs.names) (differ : name ≠ other) :
    (fs.set name v).set other w = (fs.set other w).set name v := by
  induction fs with
  | nil => cases there
  | cons f fs ih =>
    obtain ⟨n, u⟩ := f
    by_cases hn : n = name
    · subst hn
      simp [set, differ]
    · have rest : name ∈ names fs := (List.mem_cons.mp there).resolve_left (Ne.symm hn)
      by_cases ho : n = other
      · subst ho
        simp [set, hn]
      · simp [set, hn, ho, ih rest]

theorem setAll_perm (perm : gs.Perm hs) (there : ∀ g ∈ gs, g.1 ∈ fs.names) (distinct : gs.names.Nodup) :
    fs.setAll gs = fs.setAll hs := by
  induction perm generalizing fs with
  | nil => rfl
  | cons g _ ih =>
    obtain ⟨first, rest⟩ := List.forall_mem_cons.mp there
    rw [setAll_cons, setAll_cons]
    refine ih ?_ (List.nodup_cons.mp distinct).2
    rw [names_set_of_mem _ first]
    exact rest
  | swap g k rest =>
    have differ : k.1 ≠ g.1 := fun same => (List.nodup_cons.mp distinct).1 (List.mem_cons.mpr (.inl same))
    simp only [setAll_cons]
    rw [set_comm (there k List.mem_cons_self) differ]
  | trans first _ ih₁ ih₂ =>
    rw [ih₁ there distinct]
    exact ih₂ (fun g hg => there g (first.mem_iff.mpr hg)) ((first.map Prod.fst).nodup_iff.mp distinct)

end Fields

/-- The texts among the keys of entries. -/
def Value.textKeys (es : List (Value × Value)) : List String :=
  es.filterMap fun e => match e.1 with
    | .str s => some s
    | _ => none

namespace Schema

variable {s : Schema} {state t : State} {u u₁ u₂ : List (Value × Value)} {puts : Fields} {fs : Fields}

/-! ### What an entry puts -/

/-- What an entry of an update sets in a state: its key names a field, which merges its value into the current one. -/
structure Puts (s : Schema) (state : State) (e : Value × Value) (put : String × Value) : Prop where
  key : e.1 = .str put.1
  merged : s.merge put.1 (state.getD put.1) e.2 = .ok put.2

theorem merge_eq_ok_iff {name : String} {current incoming v : Value} :
    s.merge name current incoming = .ok v ↔ ∃ f, s.field? name = some f ∧ f.merge current incoming = .ok v := by
  rw [merge]
  cases s.field? name with
  | none =>
    constructor
    · rintro ⟨⟩
    · rintro ⟨f, ⟨⟩, -⟩
  | some f =>
    constructor
    · exact fun h => ⟨f, rfl, h⟩
    · rintro ⟨_, ⟨⟩, h⟩
      exact h

/-- An entry does not see what others have set. -/
theorem puts_congr {e : Value × Value} {put : String × Value} {other : State}
    (same : state.get? put.1 = other.get? put.1) : s.Puts state e put ↔ s.Puts other e put := by
  have current : state.getD put.1 = other.getD put.1 := by rw [Fields.getD, same, Fields.getD]
  constructor
  · rintro ⟨key, merged⟩
    exact ⟨key, current ▸ merged⟩
  · rintro ⟨key, merged⟩
    exact ⟨key, current ▸ merged⟩

theorem textKeys_of_puts (h : List.Forall₂ (s.Puts state) u puts) : Value.textKeys u = puts.names := by
  induction h with
  | nil => rfl
  | @cons e put u puts first _ ih =>
    obtain ⟨key, v⟩ := e
    obtain rfl : key = .str put.1 := first.key
    exact congrArg (put.1 :: ·) ih

theorem forall₂_puts_congr {other : State} (same : ∀ n ∈ puts.names, state.get? n = other.get? n)
    (h : List.Forall₂ (s.Puts state) u puts) : List.Forall₂ (s.Puts other) u puts := by
  induction h with
  | nil => exact .nil
  | cons first _ ih =>
    obtain ⟨here, rest⟩ := List.forall_mem_cons.mp same
    exact .cons ((puts_congr here).mp first) (ih rest)

/-- Only fields of the schema are put. -/
theorem Puts.field {e : Value × Value} {put : String × Value} (h : s.Puts state e put) : put.1 ∈ s.fieldNames := by
  obtain ⟨f, hf, -⟩ := merge_eq_ok_iff.mp h.merged
  have named : f.name = put.1 := by simpa using List.find?_some hf
  rw [← named]
  exact List.mem_map_of_mem (List.mem_of_find?_eq_some hf)

/-- The key names no field of the schema. -/
def isUnknown (s : Schema) : Value → Bool
  | .str n => !s.has n
  | _ => true

theorem Puts.isUnknown {e : Value × Value} {put : String × Value} (h : s.Puts state e put) :
    s.isUnknown e.1 = false := by
  have has : s.has put.1 = true := by
    obtain ⟨f, hf, named⟩ := List.mem_map.mp h.field
    exact List.any_eq_true.mpr ⟨f, hf, by simpa using named⟩
  rw [h.key, Schema.isUnknown, has]
  rfl

/-! ### What an update sets -/

theorem mergeAll_eq_ok_iff (distinct : fs.names.Nodup) : s.mergeAll state fs = .ok t ↔
    ∃ puts, List.Forall₂ (s.Puts state) (fs.map fun (k, v) => (.str k, v)) puts ∧ state.setAll puts = t := by
  induction fs generalizing state with
  | nil =>
    constructor
    · rintro ⟨⟩
      exact ⟨[], .nil, rfl⟩
    · rintro ⟨_, ⟨⟩, rfl⟩
      rfl
  | cons f fs ih =>
    obtain ⟨name, v⟩ := f
    obtain ⟨new, distinct⟩ := List.nodup_cons.mp distinct
    -- The entries that follow have other names, so they are merged into what was there before.
    have later : ∀ {w : Value} {puts : Fields}, name ∉ puts.names →
        ∀ n ∈ puts.names, (state.set name w).get? n = state.get? n := fun absent n hn =>
      Fields.get?_set_of_ne _ _ fun same => absent (same ▸ hn)
    have names : ∀ {state : State} {puts : Fields},
        List.Forall₂ (s.Puts state) (fs.map fun (k, v) => (Value.str k, v)) puts → name ∉ puts.names := by
      intro state puts h
      rw [← textKeys_of_puts h, Value.textKeys, List.filterMap_map]
      simpa [Function.comp_def, Fields.names] using new
    rw [mergeAll, bind_eq_ok]
    constructor
    · rintro ⟨w, hw, h⟩
      obtain ⟨puts, hp, rfl⟩ := (ih distinct).mp h
      exact ⟨(name, w) :: puts, .cons ⟨rfl, hw⟩ (forall₂_puts_congr (later (names hp)) hp), rfl⟩
    · rintro ⟨_, hp, rfl⟩
      rw [List.map_cons] at hp
      cases hp with
      | @cons _ put _ puts first rest =>
        obtain ⟨n, w⟩ := put
        obtain rfl : name = n := Value.str.inj first.key
        refine ⟨w, first.merged, (ih distinct).mpr ⟨puts, ?_, rfl⟩⟩
        exact forall₂_puts_congr (fun n hn => (later (names rest) n hn).symm) rest

theorem namedEntries?_ofFields (fs : Fields) : namedEntries? (fs.map fun (k, v) => (.str k, v)) = some fs := by
  induction fs with
  | nil => rfl
  | cons f fs ih =>
    rw [List.map_cons, namedEntries?, ih]
    rfl

theorem applyValue_eq_ok : s.applyValue state (.mapping u) = .ok t ↔
    (u.map Prod.fst).forM Value.checkKey = .ok () ∧ (∀ k ∈ u.map Prod.fst, s.isUnknown k = false) ∧
      s.mergeAll state ((namedEntries? u).getD []) = .ok t := by
  cases u with
  | nil =>
    constructor
    · rintro ⟨⟩
      exact ⟨rfl, List.forall_mem_nil _, rfl⟩
    · rintro ⟨-, -, ⟨⟩⟩
      rfl
  | cons e u =>
    have named : (∀ k ∈ (e :: u).map Prod.fst, s.isUnknown k = false) ↔
        (((e :: u).map Prod.fst).filter s.isUnknown).isEmpty = true := by
      simp
    rw [named]
    have filled : ¬ (!(Value.mapping (e :: u)).truthy) = true := Bool.false_ne_true
    rw [applyValue, if_neg filled]
    change (((e :: u).map Prod.fst).forM Value.checkKey >>= _) = _ ↔ _
    rw [bind_eq_ok]
    constructor
    · rintro ⟨_, checked, h⟩
      dsimp only at h
      split at h
      · rename_i known same
        cases same
        exact ⟨checked, known, h⟩
      · rename_i other
        exact absurd rfl (other _)
      · cases h
    · rintro ⟨checked, known, h⟩
      refine ⟨_, checked, ?_⟩
      dsimp only
      split
      · rename_i same
        cases same
        exact h
      · rename_i other
        exact absurd rfl (other _)
      · rename_i unknown
        cases unknown.symm.trans known

/-- Keys that name fields are texts. -/
theorem exists_fields (known : ∀ k ∈ u.map Prod.fst, s.isUnknown k = false) :
    ∃ fs : Fields, u = fs.map fun (k, v) => (.str k, v) := by
  induction u with
  | nil => exact ⟨[], rfl⟩
  | cons e u ih =>
    obtain ⟨first, rest⟩ := List.forall_mem_cons.mp known
    obtain ⟨fs, rfl⟩ := ih rest
    obtain ⟨key, v⟩ := e
    cases key with
    | str n => exact ⟨(n, v) :: fs, rfl⟩
    | null | undefined | bool | int | float | bytes | list | tuple | mapping | object | kind => cases first

/-- An update succeeds exactly if each entry puts something, and what they put is set. -/
theorem applyValue_eq_ok_iff (distinct : (Value.textKeys u).Nodup) : s.applyValue state (.mapping u) = .ok t ↔
    ∃ puts, List.Forall₂ (s.Puts state) u puts ∧ state.setAll puts = t := by
  have texts : ∀ fs : Fields, Value.textKeys (fs.map fun (k, v) => (.str k, v)) = fs.names := fun fs => by
    rw [Value.textKeys, List.filterMap_map, Fields.names, ← List.filterMap_eq_map]
    rfl
  rw [applyValue_eq_ok]
  constructor
  · rintro ⟨-, known, h⟩
    obtain ⟨fs, rfl⟩ := exists_fields known
    rw [texts] at distinct
    rw [namedEntries?_ofFields] at h
    exact (mergeAll_eq_ok_iff distinct).mp h
  · rintro ⟨puts, hp, rfl⟩
    have known : ∀ k ∈ u.map Prod.fst, s.isUnknown k = false :=
      List.forall_mem_map.mpr (((List.forall₂_and_left _ _).mp (hp.imp fun _ _ first => ⟨first.isUnknown, first⟩)).1)
    obtain ⟨fs, rfl⟩ := exists_fields known
    rw [texts] at distinct
    rw [namedEntries?_ofFields]
    refine ⟨?_, known, (mergeAll_eq_ok_iff distinct).mpr ⟨puts, hp, rfl⟩⟩
    have keys : (fs.map fun (k, v) => (Value.str k, v)).map Prod.fst = fs.names.map .str := by
      simp [Fields.names, Function.comp_def]
    rw [keys, Value.forM_checkKey_names]

/-! ### Updates in parts -/

/-- Two updates, one after the other. -/
def applyBoth (s : Schema) (state : State) (first second : List (Value × Value)) : Except Fault State := do
  s.applyValue (← s.applyValue state (.mapping first)) (.mapping second)

theorem textKeys_append : Value.textKeys (u₁ ++ u₂) = Value.textKeys u₁ ++ Value.textKeys u₂ := List.filterMap_append

/-- An update in two parts succeeds exactly if it succeeds at once. -/
theorem applyBoth_eq_ok_iff (distinct : (Value.textKeys (u₁ ++ u₂)).Nodup) :
    s.applyBoth state u₁ u₂ = .ok t ↔ s.applyValue state (.mapping (u₁ ++ u₂)) = .ok t := by
  rw [applyValue_eq_ok_iff distinct, applyBoth, bind_eq_ok]
  rw [textKeys_append, List.nodup_append] at distinct
  obtain ⟨distinct₁, distinct₂, apart⟩ := distinct
  -- The second part finds its fields as they were before the first.
  have unseen : ∀ {state₁ state₂ : State} {puts₁ puts₂ : Fields}, List.Forall₂ (s.Puts state₁) u₁ puts₁ →
      List.Forall₂ (s.Puts state₂) u₂ puts₂ → ∀ n ∈ puts₂.names, (state.setAll puts₁).get? n = state.get? n := by
    intro state₁ state₂ puts₁ puts₂ h₁ h₂ n hn
    rw [← textKeys_of_puts h₂] at hn
    refine Fields.get?_setAll_of_not_mem fun h => ?_
    rw [← textKeys_of_puts h₁] at h
    exact apart n h n hn rfl
  constructor
  · rintro ⟨_, h₁, h₂⟩
    obtain ⟨puts₁, hp₁, rfl⟩ := (applyValue_eq_ok_iff distinct₁).mp h₁
    obtain ⟨puts₂, hp₂, rfl⟩ := (applyValue_eq_ok_iff distinct₂).mp h₂
    exact ⟨puts₁ ++ puts₂, List.rel_append hp₁ (forall₂_puts_congr (unseen hp₁ hp₂) hp₂), Fields.setAll_append⟩
  · rintro ⟨puts, hp, rfl⟩
    obtain ⟨puts₁, puts₂, rfl, hp₁, hp₂⟩ : ∃ puts₁ puts₂, puts = puts₁ ++ puts₂ ∧
        List.Forall₂ (s.Puts state) u₁ puts₁ ∧ List.Forall₂ (s.Puts state) u₂ puts₂ :=
      ⟨_, _, (List.take_append_drop u₁.length puts).symm, (List.forall₂_take_append _ _ _ hp.flip).flip,
        (List.forall₂_drop_append _ _ _ hp.flip).flip⟩
    refine ⟨_, (applyValue_eq_ok_iff distinct₁).mpr ⟨puts₁, hp₁, rfl⟩, ?_⟩
    refine (applyValue_eq_ok_iff distinct₂).mpr ⟨puts₂, ?_, Fields.setAll_append.symm⟩
    exact forall₂_puts_congr (fun n hn => (unseen hp₁ hp₂ n hn).symm) hp₂

/-- The order of its entries does not matter to an update of a state that has all fields. -/
theorem applyValue_perm (populated : ∀ n ∈ s.fieldNames, n ∈ state.names) (perm : u₁.Perm u₂)
    (distinct : (Value.textKeys u₁).Nodup) (h : s.applyValue state (.mapping u₁) = .ok t) :
    s.applyValue state (.mapping u₂) = .ok t := by
  have distinct₂ : (Value.textKeys u₂).Nodup := (perm.filterMap _).nodup_iff.mp distinct
  obtain ⟨puts, hp, rfl⟩ := (applyValue_eq_ok_iff distinct).mp h
  obtain ⟨puts₂, hp₂, same⟩ := List.perm_comp_forall₂ perm.symm hp
  have there : ∀ put ∈ puts₂, put.1 ∈ state.names := by
    have fields := ((List.forall₂_and_left _ _).mp (hp₂.flip.imp fun _ _ put => ⟨put.field, put⟩)).1
    exact fun put h => populated _ (fields put h)
  have distinct_puts : (Fields.names puts₂).Nodup := by
    rw [← textKeys_of_puts hp₂]
    exact distinct₂
  exact (applyValue_eq_ok_iff distinct₂).mpr ⟨puts₂, hp₂, Fields.setAll_perm same there distinct_puts⟩

/-- What an update sets is what its entries put, each for itself, and all else stays. -/
theorem set_of_applyValue (distinct : (Value.textKeys u).Nodup) (populated : ∀ n ∈ s.fieldNames, n ∈ state.names)
    (h : s.applyValue state (.mapping u) = .ok t) : t.names = state.names ∧
      (∀ e ∈ u, ∃ n f v, e.1 = .str n ∧ s.field? n = some f ∧ f.merge (state.getD n) e.2 = .ok v ∧
        t.get? n = some v) ∧
      ∀ n ∉ Value.textKeys u, t.get? n = state.get? n := by
  obtain ⟨puts, hp, rfl⟩ := (applyValue_eq_ok_iff distinct).mp h
  rw [textKeys_of_puts hp] at distinct ⊢
  have fields := ((List.forall₂_and_left _ _).mp (hp.flip.imp fun _ _ put => ⟨put.field, put⟩)).1
  refine ⟨Fields.names_setAll fun put h => populated _ (fields put h), ?_, fun n => Fields.get?_setAll_of_not_mem⟩
  intro e he
  obtain ⟨i, rfl⟩ := List.mem_iff_get.mp he
  have put := hp.get i.isLt (hp.length_eq ▸ i.isLt)
  obtain ⟨f, hf, merged⟩ := merge_eq_ok_iff.mp put.merged
  exact ⟨_, f, _, put.key, hf, merged, Fields.get?_setAll_of_mem distinct (List.get_mem _ _)⟩

/-- Updates of different fields do not depend on each other: an update of a state that has all fields can be made in
two parts, in either order, with the same result, which sets each field that is named by its own current and incoming
value and keeps the others; and if it cannot be made, then neither can the parts. -/
theorem updates_independent (populated : ∀ n ∈ s.fieldNames, n ∈ state.names) (split : u.Perm (u₁ ++ u₂))
    (distinct : (Value.textKeys u).Nodup) :
    (∃ t, s.applyValue state (.mapping u) = .ok t ∧ s.applyBoth state u₁ u₂ = .ok t ∧
      s.applyBoth state u₂ u₁ = .ok t ∧ t.names = state.names ∧
      (∀ e ∈ u, ∃ n f v, e.1 = .str n ∧ s.field? n = some f ∧ f.merge (state.getD n) e.2 = .ok v ∧
        t.get? n = some v) ∧
      ∀ n ∉ Value.textKeys u, t.get? n = state.get? n) ∨
    (∃ f, s.applyValue state (.mapping u) = .error f) ∧ (∃ f, s.applyBoth state u₁ u₂ = .error f) ∧
      ∃ f, s.applyBoth state u₂ u₁ = .error f := by
  have other : u.Perm (u₂ ++ u₁) := split.trans List.perm_append_comm
  have distinct₁ := (split.filterMap _).nodup_iff.mp distinct
  have distinct₂ := (other.filterMap _).nodup_iff.mp distinct
  have both : ∀ {first second : List (Value × Value)}, u.Perm (first ++ second) →
      (Value.textKeys (first ++ second)).Nodup → ∀ t, s.applyBoth state first second = .ok t ↔
        s.applyValue state (.mapping u) = .ok t := by
    intro first second perm distinct' t
    rw [applyBoth_eq_ok_iff distinct']
    exact ⟨applyValue_perm populated perm.symm distinct', applyValue_perm populated perm distinct⟩
  cases h : s.applyValue state (.mapping u) with
  | ok t =>
    refine .inl ⟨t, rfl, (both split distinct₁ t).mpr h, (both other distinct₂ t).mpr h, ?_⟩
    exact set_of_applyValue distinct populated h
  | error f =>
    have fails : ∀ {x : Except Fault State}, (∀ t, x = .ok t ↔ s.applyValue state (.mapping u) = .ok t) →
        ∃ f, x = .error f := by
      intro x same
      cases x with
      | ok t =>
        have h' := (same t).mp rfl
        rw [h] at h'
        cases h'
      | error f => exact ⟨f, rfl⟩
    exact .inr ⟨⟨f, rfl⟩, fails (both split distinct₁), fails (both other distinct₂)⟩

/-- A list of lines, and a sum that a function of its own adds to. -/
def ledger : Schema where
  name := "Ledger"
  fields :=
    [⟨"lines", ⟨"array", some [.list, .tuple]⟩, .concatenate, .list [], false⟩,
      ⟨"sum", ⟨"number", some [.int, .float]⟩, .custom "add" Value.add, .int 0, false⟩]

/-- A line and its amount are entered in either order. -/
theorem ledger_entered : ∃ t, ledger.applyValue ledger.defaults
      (.mapping [(.str "lines", .str "rent"), (.str "sum", .int 5)]) = .ok t ∧
    ledger.applyBoth ledger.defaults [(.str "sum", .int 5)] [(.str "lines", .str "rent")] = .ok t ∧
    ledger.applyBoth ledger.defaults [(.str "lines", .str "rent")] [(.str "sum", .int 5)] = .ok t ∧
    t = [("lines", .list [.str "rent"]), ("sum", .int 5)] := by
  have populated : ∀ n ∈ ledger.fieldNames, n ∈ ledger.defaults.names := by decide
  have split : [(Value.str "lines", Value.str "rent"), (.str "sum", .int 5)].Perm
      ([(.str "sum", .int 5)] ++ [(.str "lines", .str "rent")]) := .swap _ _ _
  have distinct : (Value.textKeys [(.str "lines", .str "rent"), (.str "sum", .int 5)]).Nodup := by decide
  rcases updates_independent populated split distinct with ⟨t, h, first, second, -⟩ | ⟨⟨f, ⟨⟩⟩, -⟩
  refine ⟨t, h, first, second, ?_⟩
  cases h
  rfl

end Schema

end Workflow
