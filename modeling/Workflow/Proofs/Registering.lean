import Workflow.Proofs.Declared
import Workflow.Proofs.Typed

/-! # Schemas that documents register

A document that declares a schema registers it before its nodes and edges are read. So the schema stays registered
whatever becomes of the document, and handlers and conditions have no part in what is registered
(`Document.compile_schemas`). Of documents that are compiled one after another, the one that declares a name first gives
its schema to all that refer to the name later, even if it does not compile itself (`Document.referring_compileAll`).
A document that is refused and then corrected leaves what the corrected one leaves by itself if it declares the same, or
nothing (`Document.corrected_schemas`), and otherwise a schema that is out of date (`Document.corrected_stale`). -/

namespace Workflow

namespace Schema.Registry

/-- The registry after a schema was declared, which is registered unless its name is taken. -/
def declare (s : Registry) (e : Registered) : Registry :=
  match s.get? e.schema.name with
  | some _ => s
  | none => ⟨s.entries ++ [e]⟩

variable {s : Registry} {e : Registered}

theorem declare_of_taken (h : (s.get? e.schema.name).isSome) : s.declare e = s := by
  obtain ⟨old, taken⟩ := Option.isSome_iff_exists.mp h
  rw [declare, taken]

theorem declare_of_free (h : s.get? e.schema.name = none) : s.declare e = ⟨s.entries ++ [e]⟩ := by rw [declare, h]

theorem get?_declare (s : Registry) (e : Registered) (name : String) :
    (s.declare e).get? name = (s.get? name).or ([e].find? fun e => e.schema.name == name) := by
  cases free : s.get? e.schema.name with
  | none =>
    rw [declare_of_free free]
    exact List.find?_append
  | some old =>
    rw [declare_of_taken (free ▸ rfl)]
    by_cases same : e.schema.name = name
    · rw [← same, free]
      rfl
    · rw [List.find?_singleton, if_neg (by simpa using same), Option.or_none]

/-- A name belongs to the schema that was declared first. -/
theorem get?_foldl_declare (s : Registry) (es : List Registered) (name : String) :
    (es.foldl declare s).get? name = (s.get? name).or (es.find? fun e => e.schema.name == name) := by
  induction es generalizing s with
  | nil => exact Option.or_none.symm
  | cons e es ih =>
    rw [List.foldl_cons, ih, get?_declare, Option.or_assoc, ← List.find?_append]
    rfl

theorem declare_declare (s : Registry) (e : Registered) : (s.declare e).declare e = s.declare e := by
  refine declare_of_taken ?_
  rw [get?_declare, Option.isSome_or]
  simp

theorem declare_eq_iff : s.declare e = s ↔ (s.get? e.schema.name).isSome := by
  refine ⟨fun same => ?_, declare_of_taken⟩
  by_contra free
  rw [Option.not_isSome_iff_eq_none] at free
  rw [declare_of_free free] at same
  have longer := congrArg (fun s : Registry => s.entries.length) same
  simp at longer

end Schema.Registry

namespace Document

open Schema (Registry Registered)

/-- The schema that the document in a value declares, as far as it is read before its nodes and edges. -/
def declared? (reducers : Reducer.Registry) (v : Value) : Option Registered :=
  match load v with
  | .error _ => none
  | .ok d =>
    match schemaName d with
    | .error _ => none
    | .ok name =>
      if d.annotation.isEmpty then none
      else
        match inlineSchema reducers name d with
        | .error _ => none
        | .ok schema => some ⟨name, schema⟩

/-- Documents compiled one after another, each with the schemas that are registered then. -/
def compileAll (r : Registries) : List Value → Option Registry × List (Except Fault Definition)
  | [] => (r.schemas, [])
  | v :: vs =>
    let x := compile r v
    let y := compileAll { r with schemas := x.1 } vs
    (y.1, x.2 :: y.2)

variable {r : Registries} {v u : Value} {vs : List Value} {d : Document} {s : Registry} {e : Registered} {name : String}

theorem ok_of_mapError {α : Type} {x : Except Fault α} {a : α} {f : Fault → Fault} (h : x.mapError f = .ok a) :
    x = .ok a := by
  cases x <;> cases h
  rfl

theorem name_of_inlineSchema {reducers : Reducer.Registry} {schema : Schema}
    (h : inlineSchema reducers name d = .ok schema) : schema.name = name := by
  obtain ⟨fields, -, made⟩ := bind_eq_ok.mp (ok_of_mapError h)
  exact (Schema.addFields_eq_ok made).1

/-- A compilation registers what the document declares, whether it succeeds or not. -/
theorem compile_schemas (r : Registries) (v : Value) : (compile r v).1 =
    match declared? r.reducers v with
    | some e => r.schemas.map fun s => s.declare e
    | none => r.schemas := by
  have resolved : (compile r v).1 = match load v with
      | .error _ => r.schemas
      | .ok d => (resolveSchema r d).1 := by
    rw [compile]
    cases load v with
    | error => rfl
    | ok d => rcases h : resolveSchema r d with ⟨schemas, f | schema⟩ <;> simp only [h]
  rw [resolved, declared?]
  cases load v with
  | error => rfl
  | ok d =>
    dsimp only
    rw [resolveSchema]
    cases schemaName d with
    | error => rfl
    | ok name =>
      dsimp only
      cases d.annotation.isEmpty with
      | true =>
        rw [if_pos rfl, if_pos rfl]
        split <;> rfl
      | false =>
        rw [if_neg Bool.false_ne_true, if_neg Bool.false_ne_true]
        cases inline : inlineSchema r.reducers name d with
        | error => rfl
        | ok schema =>
          have own := name_of_inlineSchema inline
          subst own
          rfl

/-- One step leaves all names that were taken as they were. -/
theorem schemas_compile (schemas : r.schemas = some s) (v : Value) :
    (compile r v).1 = some ((declared? r.reducers v).toList.foldl Registry.declare s) := by
  rw [compile_schemas, schemas]
  cases declared? r.reducers v <;> rfl

theorem schemas_compileAll (schemas : r.schemas = some s) (vs : List Value) :
    (compileAll r vs).1 = some ((vs.filterMap (declared? r.reducers)).foldl Registry.declare s) := by
  induction vs generalizing r s with
  | nil => exact schemas
  | cons v vs ih =>
    rw [compileAll]
    dsimp only
    rw [ih (r := { r with schemas := (compile r v).1 }) (schemas_compile schemas v), List.filterMap_cons]
    cases declared? r.reducers v <;> rfl

/-- A document that refers to a schema is compiled over the one that the name belongs to. -/
theorem compile_of_referring (loads : load v = .ok d) (named : schemaName d = .ok name) (refers : d.annotation = [])
    (schemas : r.schemas = some s) (there : s.get? name = some e) : (compile r v).2 = build r d e.schema := by
  have resolved : resolveSchema r d = (r.schemas, .ok e.schema) := by
    rw [resolveSchema, named, refers, schemas]
    simp [there]
  rw [compile, loads]
  simp only [resolved]

/-- After documents have been compiled, one that refers to a schema by name is compiled over the schema that had the
    name before, or else over the one that was declared first, whether or not the document that declared it was
    compiled. -/
theorem referring_compileAll (loads : load v = .ok d) (named : schemaName d = .ok name) (refers : d.annotation = [])
    (schemas : r.schemas = some s)
    (there : (s.get? name).or ((vs.filterMap (declared? r.reducers)).find? fun e => e.schema.name == name) = some e) :
    (compile { r with schemas := (compileAll r vs).1 } v).2 = build r d e.schema := by
  rw [← Registry.get?_foldl_declare] at there
  exact compile_of_referring loads named refers (schemas_compileAll schemas vs) there

/-- Compilations register nothing new only if what the document declares is under a name that is taken. -/
theorem compile_untouched_iff (schemas : r.schemas = some s) : (compile r v).1 = some s ↔
    ∀ e, declared? r.reducers v = some e → (s.get? e.schema.name).isSome := by
  rw [schemas_compile schemas]
  cases declared? r.reducers v with
  | none => simp
  | some e => simpa using Registry.declare_eq_iff

/-- A document that was refused leaves no more than its corrected version leaves by itself if it declares the same
    schema, or could not be read so far. -/
theorem corrected_schemas (schemas : r.schemas = some s)
    (same : declared? r.reducers v = declared? r.reducers u ∨ declared? r.reducers v = none) :
    (compileAll r [v, u]).1 = (compile r u).1 := by
  rw [schemas_compileAll schemas, schemas_compile schemas]
  rcases same with same | none
  · cases declared : declared? r.reducers u with
    | none => simp [same, declared]
    | some e => simp [same, declared, Registry.declare_declare]
  · rw [List.filterMap_cons_none none]
    cases declared : declared? r.reducers u <;> simp [declared]

end Document

namespace Wordy

/-- A document with one node, which leads to a target, and with what it says about its schema. -/
def leading (target : String) (schema : List (String × Value)) : Value :=
  .ofFields (schema ++
    [("nodes", .list [.ofFields [("id", .str "ask"), ("handler", .str "asking")]]),
      ("edges", .list
        [.ofFields [("from", .str "__start__"), ("to", .str "ask")],
          .ofFields [("from", .str "ask"), ("to", .str target)]])])

/-- An annotation of one field. -/
def declaring (field : String) : List (String × Value) :=
  [("annotation", .ofFields [(field, .ofFields [("type", .str "array"), ("default", .list [])])])]

end Wordy

open Wordy in
/-- A document that is refused for its edge registers a schema with a misspelt field. The corrected document is compiled
    over its own schema, but one that refers to the schema by name is compiled over the misspelt one. -/
theorem Document.corrected_stale :
    let r : Registries := { registries with schemas := some {} }
    let faulty := leading "nowhere" (declaring "word")
    let corrected := leading "__end__" (declaring "words")
    let fields := fun (schemas : Option Schema.Registry) (v : Value) =>
      (compile { r with schemas } v).2.toOption.map fun g => g.schema.fieldNames
    (compile r faulty).2 = refuse ["Edge target 'nowhere' not found (from 'ask')"] ∧
      (compile r faulty).1.map Schema.Registry.names = some ["State"] ∧
      fields (compile r faulty).1 corrected = some ["words"] ∧
      fields (compileAll r [corrected]).1 (leading "__end__" []) = some ["words"] ∧
      fields (compileAll r [faulty, corrected]).1 (leading "__end__" []) = some ["word"] :=
  ⟨rfl, by decide +kernel, by decide +kernel, by decide +kernel, by decide +kernel⟩

end Workflow
