import Workflow.Execution
import Workflow.Proofs.Exact

/-! # Failures that are read back

A failure is written down as a mapping. Reading it makes a failure of the kind that is named there, and puts the details
under their names, beside what every failure has (`Failure.adopt_eq`). So what is written of a failure of a kind that is
rebuilt is read back as the same (`Failure.ofValue_toValue`). -/

namespace Workflow

/-- Reading rebuilds failures of the kind: it is the general one, or one of those that are told apart. -/
def FailureKind.IsRebuilt (k : FailureKind) : Prop := k = .general ∨ k ∈ rebuilt

theorem FailureKind.IsRebuilt.ofName_name {k : FailureKind} (h : k.IsRebuilt) : ofName k.name = k := by
  rcases h with rfl | h
  · rfl
  · have all : ∀ k ∈ rebuilt, ofName k.name = k := by decide
    exact all k h

namespace Failure

variable {f : Failure} {name : String}

/-! ### Details under their names -/

theorem put_of_not_common (h : name ∉ commonNames) (f : Failure) (v : Value) :
    f.put name v = { f with attributes := f.attributes.set name v } := by
  have other : ∀ common ∈ commonNames, name ≠ common := fun common hc same => h (same ▸ hc)
  unfold put
  rw [if_neg (other _ (by decide)), if_neg (other _ (by decide)), if_neg (other _ (by decide)),
    if_neg (other _ (by decide))]

/-- What every failure has stays when values are put under their names. -/
theorem adopt_eq (f : Failure) (values : Fields) : ∃ attributes : Fields,
    f.adopt values = { f with attributes } ∧ attributes.get? "category" = f.attributes.get? "category" := by
  induction values generalizing f with
  | nil => exact ⟨f.attributes, rfl, rfl⟩
  | cons value values ih =>
    obtain ⟨name, v⟩ := value
    show ∃ attributes, (if f.has name then f else f.put name v).adopt values = _ ∧ _
    split
    · exact ih f
    · rename_i free
      have uncommon : name ∉ commonNames := fun h => free (by rw [has, List.contains_iff_mem.mpr h, Bool.true_or])
      have other : "category" ≠ name := fun same => uncommon (same ▸ by decide)
      rw [put_of_not_common uncommon]
      obtain ⟨attributes, adopted, same⟩ := ih { f with attributes := f.attributes.set name v }
      exact ⟨attributes, adopted, same.trans (Fields.get?_set_of_ne _ v other)⟩

/-! ### What is read -/

/-- The failures are of one class and tell the same. -/
structure Alike (f f' : Failure) : Prop where
  kind : f'.kind = f.kind
  message : f'.message = f.message
  hint : f'.hint = f.hint
  details : f'.details = f.details

/-- The second failure tells the same as the first one, and is of the kind that is rebuilt under its name. -/
structure Retold (f f' : Failure) : Prop where
  kind : f'.kind = .ofName f.kind.name
  message : f'.message = f.message
  hint : f'.hint = f.hint
  details : f'.details = f.details

theorem Retold.alike {f' : Failure} (h : f.Retold f') (rebuilt : f.kind.IsRebuilt) : f.Alike f' :=
  ⟨h.kind.trans rebuilt.ofName_name, h.message, h.hint, h.details⟩

theorem ofValue_of_details {es : List (Value × Value)} {details : Fields}
    (h : (Value.mapping es).getD "details" = .ofFields details) :
    ofValue (.mapping es) = .ok (ofMembers (.mapping es) details) := by
  unfold ofValue
  dsimp only
  rw [h]
  cases details with
  | nil => rfl
  | cons d ds =>
    show Except.ok (ofMembers _ (((d :: ds).map _).map _)) = _
    rw [List.map_map]
    exact congrArg (fun ds => Except.ok (ofMembers (.mapping es) ds)) (List.map_id (d :: ds))

/-- What is written of a failure is read back, with the category of the kind that it is read as, and with its mark
    unless that is empty. -/
theorem ofValue_toValue (f : Failure) : ∃ f', ofValue f.toValue = .ok f' ∧ f.Retold f' ∧
    f'.category = .str f'.kind.category ∧ f'.correlation = givenMark (f.correlation.getD .null) := by
  have written : ∀ {name : String} {v : Value}, f.toFields.get? name = some v → f.toValue.get? name = some v :=
    fun h => (Value.get?_ofFields _ _).trans h
  have kind : FailureKind.ofName (f.toValue.getD "type").text = .ofName f.kind.name := by
    rw [Value.getD, written rfl]
    rfl
  have message : ((f.toValue.get? "error").map Value.text).getD "" = f.message := by
    rw [written rfl]
    rfl
  have hint : f.toValue.getD "recovery_hint" = f.hint := by rw [Value.getD, written rfl, Option.getD_some]
  have mark : f.toValue.getD "correlation_id" = f.correlation.getD .null := by
    rw [Value.getD, written rfl, Option.getD_some]
  have details : f.toValue.getD "details" = .ofFields f.details := by rw [Value.getD, written rfl, Option.getD_some]
  -- What the details are put beside: the failure as it is before they have become values of their own.
  let bare : Failure := { f with
    kind := .ofName f.kind.name, correlation := givenMark (f.correlation.getD .null), attributes := [], cause := none }
  have read : ofMembers f.toValue f.details = bare.adopt f.details := by rw [ofMembers, kind, message, hint, mark]
  obtain ⟨attributes, adopted, same⟩ := bare.adopt_eq f.details
  have made := (ofValue_of_details details).trans (congrArg Except.ok (read.trans adopted))
  refine ⟨_, made, ⟨rfl, rfl, rfl, rfl⟩, ?_, rfl⟩
  rw [category, same]
  rfl

theorem toValue_congr {f' : Failure} (alike : f.Alike f') (category : f'.category = f.category)
    (mark : f'.correlation = f.correlation) : f'.toValue = f.toValue := by
  simp only [toValue, toFields, alike.kind, alike.message, alike.hint, alike.details, category, mark]

end Failure

/-! ### What JSON can hold of a failure -/

namespace Fields

variable {fs gs : Fields} {name : String} {v : Value}

theorem mem_set {f : String × Value} (h : f ∈ fs.set name v) : f ∈ fs ∨ f = (name, v) := by
  induction fs with
  | nil => exact .inr (List.mem_singleton.mp h)
  | cons g fs ih =>
    obtain ⟨n, w⟩ := g
    rw [set] at h
    split at h
    · rename_i same
      rcases List.mem_cons.mp h with rfl | h
      · exact .inr (by rw [same])
      · exact .inl (List.mem_cons_of_mem _ h)
    · rcases List.mem_cons.mp h with rfl | h
      · exact .inl List.mem_cons_self
      · exact (ih h).imp_left (List.mem_cons_of_mem _)

theorem nodup_set (h : fs.names.Nodup) : (fs.set name v).names.Nodup := by
  induction fs with
  | nil => exact List.pairwise_singleton _ name
  | cons g fs ih =>
    obtain ⟨n, w⟩ := g
    obtain ⟨new, rest⟩ := List.nodup_cons.mp h
    rw [set]
    split
    · exact h
    · rename_i other
      refine List.nodup_cons.mpr ⟨fun again => ?_, ih rest⟩
      obtain ⟨f, hf, named⟩ := List.mem_map.mp again
      rcases mem_set hf with hf | rfl
      · exact new (named ▸ List.mem_map_of_mem hf)
      · exact other named.symm

/-- JSON can hold the mapping of the fields. -/
structure IsJson (fs : Fields) : Prop where
  distinct : fs.names.Nodup
  values : ∀ f ∈ fs, f.2.IsJson

theorem IsJson.setAll (h : fs.IsJson) (hg : ∀ g ∈ gs, g.2.IsJson) : (fs.setAll gs).IsJson := by
  induction gs generalizing fs with
  | nil => exact h
  | cons g gs ih =>
    obtain ⟨first, rest⟩ := List.forall_mem_cons.mp hg
    refine ih ⟨nodup_set h.distinct, fun f hf => ?_⟩ rest
    rcases mem_set hf with hf | rfl
    · exact h.values f hf
    · exact first

end Fields

namespace Failure

variable {f : Failure} {mark : String}

/-- JSON can hold what a failure is given besides the arguments of its kind. -/
structure Extra.IsJson (extra : Extra) : Prop where
  details : extra.details.IsJson
  hint : extra.hint.IsJson
  correlation : extra.correlation.IsJson

/-- The failures of the kinds that are rebuilt, made of any values that JSON can hold. What a condition selected may be
    any value, as it is written down as its literal. -/
inductive Made : Failure → Prop
  | general (message : String) {extra : Extra} (given : extra.IsJson) : Made (general message extra)
  | nodeExecution (message : String) {node : Value} {extra : Extra} (own : node.IsJson) (given : extra.IsJson) :
      Made (nodeExecution message node extra)
  | routing (message : String) {source target : Value} {possible : List Value} {extra : Extra} (own : source.IsJson)
      (targets : ∀ t ∈ possible, t.IsJson) (given : extra.IsJson) : Made (routing message source target possible extra)
  | recursionLimit {limit node : Value} {extra : Extra} (own : limit.IsJson) (next : node.IsJson)
      (given : extra.IsJson) : Made (recursionLimit limit node extra)
  | capability (message : String) {kind name : Value} {extra : Extra} (own : kind.IsJson) (named : name.IsJson)
      (given : extra.IsJson) : Made (capability message kind name extra)
  | ended {thread : Value} {extra : Extra} (own : thread.IsJson) (given : extra.IsJson) : Made (ended thread extra)

/-- Nothing is lost of a failure that is written down: its kind is rebuilt, with the category of its kind, its mark is
    not empty, and JSON can hold the rest. -/
structure Lasting (f : Failure) : Prop where
  kind : f.kind.IsRebuilt
  category : f.category = .str f.kind.category
  mark : givenMark (f.correlation.getD .null) = f.correlation
  marked : (f.correlation.getD .null).IsJson
  hint : f.hint.IsJson
  details : f.details.IsJson

/-- A mark that counts still counts when it is read again. -/
theorem givenMark_getD (v : Value) : givenMark ((givenMark v).getD .null) = givenMark v := by
  by_cases counts : v.truthy = true
  · have given : givenMark v = some v := if_pos counts
    rw [given, Option.getD_some, given]
  · have none : givenMark v = none := if_neg counts
    rw [none]
    rfl

theorem lasting_make {kind : FailureKind} {message : String} {own attributes : Fields} {extra : Extra}
    (rebuilt : kind.IsRebuilt) (plain : attributes.get? "category" = none) (hown : ∀ o ∈ own, o.2.IsJson)
    (given : extra.IsJson) : (make kind message own attributes extra).Lasting where
  kind := rebuilt
  category := by
    show (attributes.get? "category").getD _ = _
    rw [plain]
    rfl
  mark := givenMark_getD extra.correlation
  marked := by
    show ((givenMark extra.correlation).getD .null).IsJson
    unfold givenMark
    split
    · exact given.correlation
    · exact .null
  hint := given.hint
  details := given.details.setAll hown

theorem Made.lasting (h : f.Made) : f.Lasting := by
  cases h with
  | general message given => exact lasting_make (.inl rfl) rfl (fun _ h => nomatch h) given
  | nodeExecution message own given => exact lasting_make (.inr (by decide)) rfl (by simpa using own) given
  | @routing message source target possible extra own targets given =>
    refine lasting_make (.inr (by decide)) rfl ?_ given
    simp only [List.forall_mem_cons]
    exact ⟨own, .str _, .list targets, fun _ h => nomatch h⟩
  | recursionLimit own next given =>
    refine lasting_make (.inr (by decide)) rfl ?_ ⟨given.details, .str _, given.correlation⟩
    simpa using ⟨own, next⟩
  | capability message own named given =>
    refine lasting_make (.inr (by decide)) rfl ?_ given
    simpa using ⟨own, named⟩
  | ended own given => exact lasting_make (.inr (by decide)) rfl (by simpa using own) given

/-- The failure under the mark that was drawn for it, unless it was given one. -/
def stamped (f : Failure) (mark : String) : Failure := { f with correlation := f.correlation.or (some (.str mark)) }

theorem Lasting.under (h : f.Lasting) (drawn : mark ≠ "") : (f.stamped mark).Lasting := by
  obtain ⟨kind, category, given, isJson, hint, details⟩ := h
  cases hc : f.correlation with
  | none =>
    have now : (f.stamped mark).correlation = some (.str mark) := by rw [stamped, hc]; rfl
    refine ⟨kind, category, ?_, ?_, hint, details⟩
    · rw [now]
      simp [givenMark, Value.truthy, drawn]
    · rw [now]
      exact .str mark
  | some m =>
    have now : (f.stamped mark).correlation = f.correlation := by rw [stamped, hc]; rfl
    exact ⟨kind, category, now ▸ given, now ▸ isJson, hint, details⟩

theorem Lasting.isJson_toValue (h : f.Lasting) : f.toValue.IsJson := by
  refine Value.isJson_ofFields ?_ ?_
  · show ["type", "error", "category", "correlation_id", "recovery_hint", "details"].Nodup
    decide
  · simp only [toFields, List.forall_mem_cons, h.category]
    exact ⟨.str _, .str _, .str _, h.marked, h.hint, Value.isJson_ofFields h.details.distinct h.details.values,
      fun _ he => nomatch he⟩

theorem Lasting.reread (h : f.Lasting) : ∃ f', ofValue f.toValue = .ok f' ∧ f.Alike f' ∧ f'.category = f.category ∧
    f'.correlation = f.correlation := by
  obtain ⟨f', read, retold, category, mark⟩ := ofValue_toValue f
  have alike := retold.alike h.kind
  rw [alike.kind] at category
  exact ⟨f', read, alike, category.trans h.category.symm, mark.trans h.mark⟩

end Failure

/-! ### Failures of checkpoints -/

/-- The second checkpoint is made of the first one: it was taken up and written down again, or went through a durable
    store. -/
inductive Checkpoint.Copied : Checkpoint → Checkpoint → Prop
  | taken {c : Checkpoint} {e : Execution} (h : Execution.ofCheckpoint c = .ok e) (graph : String)
      (id timestamp : Value) : Copied c (e.checkpoint graph id timestamp)
  | stored {c d : Checkpoint} {v : Value} (written : Json.normal c.toValue = .ok v)
      (read : ofValue v = .ok d) : Copied c d

namespace Checkpoint

variable {c d : Checkpoint} {f f' : Failure}

theorem normal_error (h : c.normal = .ok d) : Json.normal c.error = .ok d.error := by
  simp only [normal, bind_eq_ok] at h
  obtain ⟨_, -, _, -, _, -, _, -, _, -, _, -, _, -, _, -, _, error, _, -, _, -, h⟩ := h
  cases h
  exact error

theorem failure?_of_error (h : c.error = f.toValue) (read : Failure.ofValue f.toValue = .ok f') :
    c.failure? = .ok (some f') := by
  have told : (f.toValue).truthy = true := rfl
  rw [failure?, h, if_pos told, read]
  rfl

/-- A failure that is read back as it was written stays as it is when its checkpoint is copied. -/
theorem Copied.error (h : c.Copied d) (told : c.error = f.toValue) (isJson : f.toValue.IsJson)
    (read : Failure.ofValue f.toValue = .ok f') (same : f'.toValue = f.toValue) : d.error = f.toValue := by
  cases h with
  | taken h graph id timestamp =>
    obtain ⟨failure, taken, h⟩ := bind_eq_ok.mp h
    rw [failure?_of_error told read] at taken
    cases taken
    cases h
    exact same
  | stored written read =>
    rw [normal_toValue] at written
    cases hk : c.normal with
    | error fault =>
      rw [hk] at written
      cases written
    | ok k =>
      rw [hk] at written
      cases written
      obtain rfl := eq_of_ofValue_toValue read
      have error := normal_error hk
      rw [told, Json.normal_eq isJson] at error
      exact (Except.ok.inj error).symm

end Checkpoint

namespace Failure

variable {f : Failure} {mark : String}

/-- A failure that is made of values that JSON can hold is read back from what is written of it, directly or by way of
    JSON, as one of the same class that tells the same and is written alike. So however often its checkpoint is taken up
    and written down again, and stored and loaded, the failure that is written there stays the same. -/
theorem Made.reread_unchanged (made : f.Made) (drawn : mark ≠ "") : ∃ f',
    ofValue (f.stamped mark).toValue = .ok f' ∧ (Json.normal (f.stamped mark).toValue >>= ofValue) = .ok f' ∧
    (f.stamped mark).Alike f' ∧ f'.category = (f.stamped mark).category ∧
    f'.correlation = (f.stamped mark).correlation ∧ f'.toValue = (f.stamped mark).toValue ∧
    ∀ {c d : Checkpoint}, c.error = (f.stamped mark).toValue → Relation.ReflTransGen Checkpoint.Copied c d →
      d.error = c.error ∧ d.failure? = .ok (some f') := by
  have lasting := made.lasting.under drawn
  obtain ⟨f', read, alike, category, correlation⟩ := lasting.reread
  have same := toValue_congr alike category correlation
  have isJson := lasting.isJson_toValue
  refine ⟨f', read, ?_, alike, category, correlation, same, ?_⟩
  · rw [Json.normal_eq isJson]
    exact read
  · intro c d told copies
    have kept : d.error = (f.stamped mark).toValue := by
      induction copies with
      | refl => exact told
      | tail _ copied ih => exact copied.error ih isJson read same
    exact ⟨kept.trans told.symm, Checkpoint.failure?_of_error kept read⟩

/-- A failure whose details stand under names of what every failure has, and under one of its own. -/
def astray : Failure :=
  routing "no way" (.str "a") (.list [.str "z"]) [.str "b"]
    { details := [("message", .int 1), ("category", .null), ("correlation_id", .str "x"), ("source", .str "old")]
      hint := .str "look" }

/-- None of these details gets in the way. -/
theorem reread_unchanged_astray : astray.Made ∧ "1f2e3d4c" ≠ "" ∧ ∃ f',
    ofValue (astray.stamped "1f2e3d4c").toValue = .ok f' ∧ f'.kind = .routing ∧ f'.message = "no way" ∧
    f'.category = .str "routing" ∧ f'.correlation = some (.str "1f2e3d4c") ∧
    f'.details = [("message", .int 1), ("category", .null), ("correlation_id", .str "x"), ("source", .str "a"),
      ("target", .str "['z']"), ("possible_targets", .list [.str "b"])] := by
  have json : ∀ d ∈
      [("message", Value.int 1), ("category", .null), ("correlation_id", .str "x"), ("source", .str "old")],
      d.2.IsJson := by
    simp only [List.forall_mem_cons]
    exact ⟨.int 1, .null, .str "x", .str "old", fun _ h => nomatch h⟩
  have made : astray.Made :=
    .routing "no way" (.str "a") (List.forall_mem_singleton.mpr (.str "b")) ⟨⟨by decide, json⟩, .str "look", .null⟩
  have drawn : "1f2e3d4c" ≠ "" := by decide
  obtain ⟨f', read, -, alike, category, correlation, -⟩ := made.reread_unchanged drawn
  exact ⟨made, drawn, f', read, alike.kind, alike.message, category, correlation, alike.details⟩

end Failure

end Workflow
