import Workflow.Proofs.Updates

/-! # What updates leave in a field

Updates that are made one after another reduce the values that they give for a field into its value, in order, whatever
they do to other fields (`Schema.reduceAll_of_applyAll`). Under the built-in reducers, what comes of these values can be
told at once: the items of all of them, the last one that counts, or the union of the mappings among them
(`Schema.accrued`). -/

namespace Workflow

/-! ### Lists of values -/

namespace Value

/-- The items that values add up to: those of lists and tuples, none for no value, and any other value itself. -/
def gathered : List Value → List Value
  | [] => []
  | .null :: vs | .undefined :: vs => gathered vs
  | .list xs :: vs | .tuple xs :: vs => xs ++ gathered vs
  | v :: vs => v :: gathered vs

/-- The entries of the mappings among the values, one mapping after the other. -/
def entered : List Value → List (Value × Value)
  | [] => []
  | .mapping es :: vs => es ++ entered vs
  | _ :: vs => entered vs

/-- The entries put together: each key stands where it was first given, with the value that it was last given. -/
def unite : List (Value × Value) → List (Value × Value)
  | [] => []
  | (k, v) :: es =>
    (k, ((es.reverse.find? fun e => e.1.equal k).map Prod.snd).getD v) :: unite (es.filter fun e => !e.1.equal k)
termination_by es => es.length
decreasing_by
  rw [List.length_unattach]
  exact Nat.lt_succ_of_le (Nat.le_trans (List.length_filter_le _ _) (Nat.le_of_eq List.length_attach))

/-- A value that stands for none. -/
inductive Blank : Value → Prop
  | null : Blank .null
  | undefined : Blank .undefined
  | str : Blank (.str "")
  | bytes : Blank (.bytes [])
  | list : Blank (.list [])
  | tuple : Blank (.tuple [])
  | mapping : Blank (.mapping [])

/-- A list, a tuple or no value. -/
inductive Sequence : Value → Prop
  | null : Sequence .null
  | undefined : Sequence .undefined
  | list (xs : List Value) : Sequence (.list xs)
  | tuple (xs : List Value) : Sequence (.tuple xs)

/-- The last of the values that is not idle; the initial one if all of them are. -/
inductive LastGiven (idle : Value → Prop) (initial : Value) : List Value → Value → Prop
  | none {vs : List Value} (all : ∀ v ∈ vs, idle v) : LastGiven idle initial vs initial
  | last (before : List Value) {w : Value} {after : List Value} (given : ¬idle w) (later : ∀ v ∈ after, idle v) :
      LastGiven idle initial (before ++ w :: after) w

variable {v w : Value} {vs : List Value} {es fs : List (Value × Value)} {idle : Value → Prop}

theorem gathered_cons (v : Value) (vs : List Value) : gathered (v :: vs) = gathered [v] ++ gathered vs := by
  cases v <;> simp [gathered]

theorem entered_cons (v : Value) (vs : List Value) : entered (v :: vs) = entered [v] ++ entered vs := by
  cases v <;> simp [entered]

theorem blank_iff : Blank v ↔ Reducer.isEmpty v = true := by
  constructor
  · rintro (_ | _ | _ | _ | _ | _ | _) <;> rfl
  · intro h
    cases v with
    | null => exact .null
    | undefined => exact .undefined
    | str s =>
      obtain rfl : s = "" := by simpa [Reducer.isEmpty] using h
      exact .str
    | bytes bs =>
      obtain rfl := List.isEmpty_iff.mp h
      exact .bytes
    | list xs =>
      obtain rfl := List.isEmpty_iff.mp h
      exact .list
    | tuple xs =>
      obtain rfl := List.isEmpty_iff.mp h
      exact .tuple
    | mapping es =>
      obtain rfl := List.isEmpty_iff.mp h
      exact .mapping
    | bool | int | float | object | kind => cases h

/-- An idle value before the others changes nothing. -/
theorem LastGiven.cons_idle (h : LastGiven idle v vs w) {u : Value} (hu : idle u) : LastGiven idle v (u :: vs) w := by
  cases h with
  | none all => exact .none (List.forall_mem_cons.mpr ⟨hu, all⟩)
  | last before given later => exact .last (u :: before) given later

/-- A value that is not idle counts as the initial one for those after it. -/
theorem LastGiven.cons_given (h : LastGiven idle v vs w) (hv : ¬idle v) (u : Value) :
    LastGiven idle u (v :: vs) w := by
  cases h with
  | none all => exact .last [] hv all
  | last before given later => exact .last (v :: before) given later

/-- Where only idle values follow the first one, what is given among them is the first one. -/
theorem eq_of_idle_after {after after' : List Value} {w' : Value} (later : ∀ v ∈ after, idle v) (given : ¬idle w')
    (same : w :: after = vs ++ w' :: after') : w = w' := by
  cases vs with
  | nil => exact (List.cons.inj same).1
  | cons u us =>
    obtain ⟨-, rest⟩ := List.cons.inj same
    exact absurd (later w' (rest ▸ List.mem_append_right us List.mem_cons_self)) given

/-- There is one last given value. -/
theorem LastGiven.unique (h : LastGiven idle v vs w) {w' : Value} (h' : LastGiven idle v vs w') : w = w' := by
  generalize same : vs = us at h'
  cases h with
  | none all =>
    cases h' with
    | none => rfl
    | last before given => exact absurd (all _ (same ▸ List.mem_append_right before List.mem_cons_self)) given
  | last before given later =>
    cases h' with
    | none all => exact absurd (all _ (same ▸ List.mem_append_right before List.mem_cons_self)) given
    | last before' given' later' =>
      rcases List.append_eq_append_iff.mp same with ⟨us, -, rest⟩ | ⟨us, -, rest⟩
      · exact eq_of_idle_after later given' rest
      · exact (eq_of_idle_after later' given rest).symm

/-! ### Entries put together -/

/-- The first key catches the entries that are equal to it, and the others go on to those after it. -/
theorem insertAll_cons (k v : Value) (es fs : List (Value × Value)) : insertAll ((k, v) :: es) fs =
    (k, ((fs.reverse.find? fun e => e.1.equal k).map Prod.snd).getD v) ::
      insertAll es (fs.filter fun e => !e.1.equal k) := by
  induction fs generalizing v es with
  | nil => rfl
  | cons f fs ih =>
    obtain ⟨l, u⟩ := f
    have next : insertAll ((k, v) :: es) ((l, u) :: fs) = insertAll (insert l u ((k, v) :: es)) fs := rfl
    rw [next, insert]
    cases same : l.equal k with
    | true =>
      rw [if_pos rfl, ih]
      cases later : fs.reverse.find? fun e => e.1.equal k <;> simp [same, later]
    | false =>
      rw [if_neg Bool.false_ne_true, ih]
      cases later : fs.reverse.find? fun e => e.1.equal k <;> simp [same, later] <;> rfl

theorem insertAll_nil : ∀ es : List (Value × Value), insertAll [] es = unite es
  | [] => by rw [unite]; rfl
  | (k, v) :: es => by
    rw [unite, ← insertAll_nil (es.filter fun e => !e.1.equal k)]
    exact insertAll_cons k v [] es
termination_by es => es.length
decreasing_by exact Nat.lt_succ_of_le (List.length_filter_le _ _)

/-- Entries of which no two keys are equal stay as they are. -/
theorem unite_eq_self (distinct : es.Pairwise fun e f => f.1.equal e.1 = false) : unite es = es := by
  induction es with
  | nil => rw [unite]
  | cons e es ih =>
    obtain ⟨k, v⟩ := e
    obtain ⟨first, rest⟩ := List.pairwise_cons.mp distinct
    have none : es.reverse.find? (fun f => f.1.equal k) = none :=
      List.find?_eq_none.mpr fun f hf => by simp [first f (List.mem_reverse.mp hf)]
    have all : es.filter (fun f => !f.1.equal k) = es := List.filter_eq_self.mpr fun f hf => by simp [first f hf]
    rw [unite, none, all, ih rest]
    rfl

theorem insertAll_eq_unite (distinct : es.Pairwise fun e f => f.1.equal e.1 = false) (fs : List (Value × Value)) :
    insertAll es fs = unite (es ++ fs) := by
  have start : insertAll [] es = es := (insertAll_nil es).trans (unite_eq_self distinct)
  rw [← insertAll_nil, insertAll, insertAll, List.foldl_append]
  exact congrArg (fun acc => List.foldl _ acc fs) start.symm

end Value

/-! ### Reducers over lists of values -/

namespace Reducer

open Value

variable {r : Reducer} {c v w : Value} {vs : List Value} {idle : Value → Prop}

/-- Reduces the values into the current one, one after another. -/
def reduceAll (r : Reducer) (current : Value) (vs : List Value) : Except Fault Value := vs.foldlM r.apply current

theorem reduceAll_cons (r : Reducer) (c v : Value) (vs : List Value) :
    r.reduceAll c (v :: vs) = r.apply c v >>= fun c => r.reduceAll c vs := List.foldlM_cons

theorem addedItems_eq (v : Value) : addedItems v = gathered [v] := by
  cases v <;> simp [addedItems, gathered]

theorem baseItems_eq (h : Sequence c) : baseItems c = .ok (gathered [c]) := by
  cases h <;> simp [baseItems, gathered, items, items?]

theorem reduceAll_concatenate_list (xs vs : List Value) :
    concatenate.reduceAll (.list xs) vs = .ok (.list (xs ++ gathered vs)) := by
  induction vs generalizing xs with
  | nil => simp [reduceAll, gathered, pure, Except.pure]
  | cons v vs ih =>
    calc concatenate.reduceAll (.list xs) (v :: vs)
      _ = concatenate.reduceAll (.list (xs ++ addedItems v)) vs := reduceAll_cons _ _ _ _
      _ = .ok (.list (xs ++ gathered (v :: vs))) := by
        rw [ih, addedItems_eq, gathered_cons v vs, List.append_assoc]

/-- Appending keeps all items of all values, in order. -/
theorem reduceAll_concatenate (h : Sequence c) (v : Value) (vs : List Value) :
    concatenate.reduceAll c (v :: vs) = .ok (.list (gathered (c :: v :: vs))) := by
  have first : concatenate.apply c v = .ok (.list (gathered [c] ++ gathered [v])) := by
    rw [apply, baseItems_eq h, addedItems_eq]
    rfl
  rw [reduceAll_cons, first]
  calc concatenate.reduceAll (.list (gathered [c] ++ gathered [v])) vs
    _ = .ok (.list (gathered [c] ++ gathered [v] ++ gathered vs)) := reduceAll_concatenate_list _ _
    _ = .ok (.list (gathered (c :: v :: vs))) := by
      rw [gathered_cons c (v :: vs), gathered_cons v vs, List.append_assoc]

/-- A reducer that keeps its value for what is idle, and takes whatever else is given, ends with the last that was
    given. -/
theorem lastGiven_of_reduceAll (keeps : ∀ c v, idle v → r.apply c v = .ok c)
    (takes : ∀ c v, ¬idle v → r.apply c v = .ok v) (h : r.reduceAll c vs = .ok w) : LastGiven idle c vs w := by
  induction vs generalizing c with
  | nil =>
    cases h
    exact .none fun _ hv => nomatch hv
  | cons v vs ih =>
    rw [reduceAll_cons] at h
    by_cases hv : idle v
    · rw [keeps c v hv] at h
      exact (ih h).cons_idle hv
    · rw [takes c v hv] at h
      exact (ih h).cons_given hv c

theorem lastGiven_replaceIfPresent (h : replaceIfPresent.reduceAll c vs = .ok w) : LastGiven Blank c vs w := by
  refine lastGiven_of_reduceAll (fun c v hv => ?_) (fun c v hv => ?_) h
  · exact apply_replaceIfPresent_of_isEmpty (blank_iff.mp hv)
  · exact apply_replaceIfPresent_of_not_isEmpty (eq_false_of_ne_true (mt blank_iff.mpr hv))

theorem lastGiven_overrideIfDefined (h : overrideIfDefined.reduceAll c vs = .ok w) :
    LastGiven (· = .undefined) c vs w := by
  refine lastGiven_of_reduceAll (fun c v hv => ?_) (fun c v hv => apply_overrideIfDefined hv) h
  rw [hv]
  exact apply_overrideIfDefined_undefined c

theorem apply_shallowMerge (h : shallowMerge.apply c v = .ok w) :
    w = .mapping (insertAll (entered [c]) (entered [v])) := by
  have current : entriesOf c = entered [c] := by cases c <;> simp [entriesOf, entered]
  change mergeMappings c v = .ok w at h
  unfold mergeMappings at h
  split at h <;> cases h <;> simp [current, entered, insertAll]

theorem reduceAll_shallowMerge_mapping {es : List (Value × Value)}
    (h : shallowMerge.reduceAll (.mapping es) vs = .ok w) : w = .mapping (insertAll es (entered vs)) := by
  induction vs generalizing es with
  | nil =>
    cases h
    rfl
  | cons v vs ih =>
    rw [reduceAll_cons] at h
    obtain ⟨_, first, h⟩ := bind_eq_ok.mp h
    cases apply_shallowMerge first
    rw [ih h, entered_cons v vs, insertAll, insertAll, insertAll, ← List.foldl_append]
    simp [entered]

/-- Merging puts the entries of all mappings together. -/
theorem reduceAll_shallowMerge (distinct : (entered [c]).Pairwise fun e f => f.1.equal e.1 = false)
    (h : shallowMerge.reduceAll c (v :: vs) = .ok w) : w = .mapping (unite (entered (c :: v :: vs))) := by
  rw [reduceAll_cons] at h
  obtain ⟨_, first, h⟩ := bind_eq_ok.mp h
  cases apply_shallowMerge first
  have all : insertAll (insertAll (entered [c]) (entered [v])) (entered vs) =
      insertAll (entered [c]) (entered [v] ++ entered vs) := List.foldl_append.symm
  rw [reduceAll_shallowMerge_mapping h, all, insertAll_eq_unite distinct, entered_cons c (v :: vs),
    entered_cons v vs]

end Reducer

/-! ### Updates one after another -/

theorem Field.apply_of_merge {f : Field} {current incoming v : Value} (h : f.merge current incoming = .ok v) :
    f.reducer.apply current incoming = .ok v := by
  obtain ⟨w, reduced, h⟩ := bind_eq_ok.mp h
  split at h <;> cases h
  exact reduced

namespace Schema

variable {s : Schema} {f : Field} {state t : State} {fs : Fields} {u : Value} {updates : List Value}

/-- Makes the updates one after another. -/
def applyAll (s : Schema) (state : State) (updates : List Value) : Except Fault State :=
  updates.foldlM s.applyValue state

/-- The values that the updates give under a name. -/
def given (name : String) (updates : List Value) : List Value :=
  (Value.entered updates).filterMap fun e => if e.1.equal (.str name) then some e.2 else none

/-- The values of the entries under a name. -/
def under (name : String) (fs : Fields) : List Value := fs.filterMap fun e => if e.1 = name then some e.2 else none

theorem given_eq_under {name : String} (h : Value.entered updates = fs.map fun (k, v) => (.str k, v)) :
    given name updates = under name fs := by
  rw [given, h, List.filterMap_map, under]
  congr 1
  funext e
  simp

/-- Entries of an update leave in a field what its reducer makes of those under its name. -/
theorem reduceAll_of_mergeAll (field : s.field? f.name = some f) (h : s.mergeAll state fs = .ok t) :
    ∃ v, f.reducer.reduceAll (state.getD f.name) (under f.name fs) = .ok v ∧
      t.get? f.name = if under f.name fs = [] then state.get? f.name else some v := by
  induction fs generalizing state with
  | nil =>
    cases h
    exact ⟨_, rfl, rfl⟩
  | cons e fs ih =>
    obtain ⟨n, u⟩ := e
    obtain ⟨w, merged, h⟩ := bind_eq_ok.mp h
    obtain ⟨v, reduced, left⟩ := ih h
    by_cases same : n = f.name
    · -- What the first entry leaves in the field is what the others are reduced into.
      subst same
      obtain ⟨f', field', merged⟩ := merge_eq_ok_iff.mp merged
      obtain rfl : f = f' := Option.some.inj (field.symm.trans field')
      have now : (state.set f.name w).get? f.name = some w := Fields.get?_set_self state f.name w
      rw [Fields.getD, now] at reduced
      have here : under f.name ((f.name, u) :: fs) = u :: under f.name fs := by simp [under]
      refine ⟨v, ?_, ?_⟩
      · rw [here, Reducer.reduceAll_cons, f.apply_of_merge merged]
        exact reduced
      · rw [here, if_neg (List.cons_ne_nil _ _), left, now]
        split
        · -- No other entry is of the field, so nothing more is reduced into it.
          rename_i none
          rw [none] at reduced
          cases reduced
          rfl
        · rfl
    · have kept : (state.set n w).get? f.name = state.get? f.name := Fields.get?_set_of_ne state w (Ne.symm same)
      rw [Fields.getD, kept] at reduced
      have here : under f.name ((n, u) :: fs) = under f.name fs := by simp [under, same]
      rw [here]
      exact ⟨v, reduced, kept ▸ left⟩

theorem mergeAll_append {gs : Fields} (h : s.mergeAll state fs = .ok t) :
    s.mergeAll state (fs ++ gs) = s.mergeAll t gs := by
  induction fs generalizing state with
  | nil =>
    cases h
    rfl
  | cons e fs ih =>
    obtain ⟨w, merged, h⟩ := bind_eq_ok.mp h
    rw [List.cons_append, mergeAll, merged]
    exact ih h

/-- What is no mapping changes nothing as an update, if it can be made. -/
theorem eq_of_applyValue (h : s.applyValue state u = .ok t) (other : ∀ es, u ≠ .mapping es) : t = state := by
  unfold applyValue at h
  split at h
  · cases h
    rfl
  · obtain ⟨keys, -, h⟩ := bind_eq_ok.mp h
    obtain ⟨_, -, h⟩ := bind_eq_ok.mp h
    dsimp only at h
    split at h
    · exact absurd rfl (other _)
    · cases h
    · cases h

/-- An update that is made merges its entries, if it has any. -/
theorem mergeAll_of_applyValue (h : s.applyValue state u = .ok t) :
    ∃ fs : Fields, Value.entered [u] = fs.map (fun (k, v) => (.str k, v)) ∧ s.mergeAll state fs = .ok t := by
  by_cases mapping : ∃ es, u = .mapping es
  · obtain ⟨es, rfl⟩ := mapping
    obtain ⟨-, known, merged⟩ := applyValue_eq_ok.mp h
    obtain ⟨fs, rfl⟩ := exists_fields known
    rw [namedEntries?_ofFields] at merged
    exact ⟨fs, by simp [Value.entered], merged⟩
  · have other : ∀ es, u ≠ .mapping es := fun es same => mapping ⟨es, same⟩
    obtain rfl := eq_of_applyValue h other
    refine ⟨[], ?_, rfl⟩
    cases u with
    | mapping es => exact absurd rfl (other es)
    | _ => rfl

/-- Updates that are made one after another merge the entries of all of them. -/
theorem mergeAll_of_applyAll (h : s.applyAll state updates = .ok t) :
    ∃ fs : Fields, Value.entered updates = fs.map (fun (k, v) => (.str k, v)) ∧ s.mergeAll state fs = .ok t := by
  induction updates generalizing state with
  | nil =>
    cases h
    exact ⟨[], rfl, rfl⟩
  | cons u updates ih =>
    rw [applyAll, List.foldlM_cons] at h
    obtain ⟨state', first, h⟩ := bind_eq_ok.mp h
    obtain ⟨fs, entries, merged⟩ := mergeAll_of_applyValue first
    obtain ⟨gs, rest, later⟩ := ih h
    refine ⟨fs ++ gs, ?_, (mergeAll_append merged).trans later⟩
    rw [Value.entered_cons, entries, rest, List.map_append]

/-- Updates that are made leave in a field what its reducer makes of the values that they give for it, one after
    another, and its value is the same if they give none. -/
theorem reduceAll_of_applyAll (field : s.field? f.name = some f) (h : s.applyAll state updates = .ok t) :
    ∃ v, f.reducer.reduceAll (state.getD f.name) (given f.name updates) = .ok v ∧
      t.get? f.name = if given f.name updates = [] then state.get? f.name else some v := by
  obtain ⟨fs, entries, merged⟩ := mergeAll_of_applyAll h
  rw [given_eq_under entries]
  exact reduceAll_of_mergeAll field merged

/-- What a field with a built-in reducer has come to once updates that name it were made, whatever they do to other
    fields. Appending starts from a list, a tuple or no value; merging starts from the entries of a mapping, no two keys
    of which are equal, or from none. -/
theorem accrued (field : s.field? f.name = some f) (accepted : s.applyAll state updates = .ok t)
    (named : given f.name updates ≠ []) : ∃ v, t.get? f.name = some v ∧
      (f.reducer = .concatenate → (state.getD f.name).Sequence →
        v = .list (Value.gathered (state.getD f.name :: given f.name updates))) ∧
      (f.reducer = .replaceIfPresent → Value.LastGiven Value.Blank (state.getD f.name) (given f.name updates) v) ∧
      (f.reducer = .shallowMerge →
        (Value.entered [state.getD f.name]).Pairwise (fun e e' => e'.1.equal e.1 = false) →
        v = .mapping (Value.unite (Value.entered (state.getD f.name :: given f.name updates)))) ∧
      (f.reducer = .overrideIfDefined →
        Value.LastGiven (· = .undefined) (state.getD f.name) (given f.name updates) v) := by
  obtain ⟨v, reduced, left⟩ := reduceAll_of_applyAll field accepted
  rw [if_neg named] at left
  obtain ⟨u, us, values⟩ := List.exists_cons_of_ne_nil named
  rw [values] at reduced ⊢
  refine ⟨v, left, ?_, ?_, ?_, ?_⟩ <;> intro builtin <;> rw [builtin] at reduced
  · intro sequence
    rw [Reducer.reduceAll_concatenate sequence] at reduced
    exact (Except.ok.inj reduced).symm
  · exact Reducer.lastGiven_replaceIfPresent reduced
  · exact fun distinct => Reducer.reduceAll_shallowMerge distinct reduced
  · exact Reducer.lastGiven_overrideIfDefined reduced

/-- A field for each of the built-in reducers. -/
def journal : Schema where
  name := "Journal"
  fields :=
    [⟨"lines", ⟨"array", some [.list, .tuple]⟩, .concatenate, .list [], false⟩,
      ⟨"title", ⟨"string", some [.str]⟩, .replaceIfPresent, .str "", false⟩,
      ⟨"tags", ⟨"object", some [.mapping]⟩, .shallowMerge, .ofFields [("a", .int 0)], false⟩,
      ⟨"mood", ⟨"string", some [.str]⟩, .overrideIfDefined, .str "", false⟩]

def pages : List Value :=
  [.ofFields [("lines", .str "rain"), ("tags", .ofFields [("b", .int 1)]), ("mood", .str "low")], .null,
    .ofFields [("lines", .tuple [.str "rain", .str "wind"]), ("title", .str "Spring"), ("mood", .null)],
    .ofFields [("tags", .ofFields [("c", .int 2), ("a", .int 3)]), ("title", .str ""), ("mood", .undefined),
      ("lines", .undefined)]]

/-- Lines that come twice are kept twice, a blank title does not count, a tag that is given again stays in its place, and
    a mood that was cleared stays so. -/
theorem accrued_pages : ∃ t, journal.applyAll journal.defaults pages = .ok t ∧
    t.get? "lines" = some (.list [.str "rain", .str "rain", .str "wind"]) ∧ t.get? "title" = some (.str "Spring") ∧
    t.get? "tags" = some (.ofFields [("a", .int 3), ("b", .int 1), ("c", .int 2)]) ∧ t.get? "mood" = some .null := by
  obtain ⟨t, accepted⟩ : ∃ t, journal.applyAll journal.defaults pages = .ok t := ⟨_, rfl⟩
  have lines : given "lines" pages = [.str "rain", .tuple [.str "rain", .str "wind"], .undefined] := rfl
  have title : given "title" pages = [.str "Spring", .str ""] := rfl
  have tags : given "tags" pages = [.ofFields [("b", .int 1)], .ofFields [("c", .int 2), ("a", .int 3)]] := rfl
  have mood : given "mood" pages = [.str "low", .null, .undefined] := rfl
  obtain ⟨_, left₁, appended, -⟩ := accrued (f := journal.fields[0]) rfl accepted (lines ▸ List.cons_ne_nil _ _)
  obtain ⟨_, left₂, -, replaced, -⟩ := accrued (f := journal.fields[1]) rfl accepted (title ▸ List.cons_ne_nil _ _)
  obtain ⟨_, left₃, -, -, merged, -⟩ := accrued (f := journal.fields[2]) rfl accepted (tags ▸ List.cons_ne_nil _ _)
  obtain ⟨_, left₄, -, -, -, overridden⟩ := accrued (f := journal.fields[3]) rfl accepted (mood ▸ List.cons_ne_nil _ _)
  have spring : Value.LastGiven Value.Blank (.str "") (given "title" pages) (.str "Spring") := by
    rw [title]
    exact .last [] (mt Value.blank_iff.mp (by decide)) (List.forall_mem_singleton.mpr .str)
  have united : Value.unite [(.str "a", .int 0), (.str "b", .int 1), (.str "c", .int 2), (.str "a", .int 3)] =
      [(.str "a", .int 3), (.str "b", .int 1), (.str "c", .int 2)] := by
    simp [Value.unite]
  have cleared : Value.LastGiven (· = .undefined) (.str "") (given "mood" pages) .null := by
    rw [mood]
    exact .last [.str "low"] nofun (List.forall_mem_singleton.mpr rfl)
  refine ⟨t, accepted, ?_, ?_, ?_, ?_⟩
  · exact left₁.trans (congrArg some (appended rfl (.list [])))
  · exact left₂.trans (congrArg some ((replaced rfl).unique spring))
  · exact left₃.trans (congrArg some ((merged rfl (List.pairwise_singleton _ _)).trans (congrArg Value.mapping united)))
  · exact left₄.trans (congrArg some ((overridden rfl).unique cleared))

end Schema

end Workflow
