import Workflow.Document.Load
import Workflow.Proofs.Records

/-! # Documents that are written are read

What a document says can be written down member by member (`Document.written`), and is read back as it was, each record
by the members that it writes (`Document.load_written`). -/

namespace Workflow

/-! ### Checked values -/

namespace Checked

variable {α : Type} {check : Value → Checked α} {write : α → Value}

theorem all_cons {a : Checked α} {as : List (Checked α)} {x : α} {xs : List α} (first : a = .ok x)
    (rest : all as = .ok xs) : all (a :: as) = .ok (x :: xs) := by
  subst first
  simp only [all, rest]

theorem all_map_eq_ok {β : Type} {f : β → Checked α} {g : β → α} {xs : List β} (h : ∀ x ∈ xs, f x = .ok (g x)) :
    all (xs.map f) = .ok (xs.map g) := by
  induction xs with
  | nil => rfl
  | cons x xs ih =>
    obtain ⟨first, rest⟩ := List.forall_mem_cons.mp h
    exact all_cons first (ih rest)

/-- A list is read item by item. -/
theorem list_written {xs : List α} (h : ∀ x ∈ xs, check (write x) = .ok x) :
    list check (.list (xs.map write)) = .ok xs := by
  have read : ∀ n, all (((xs.map write).zipIdx n).map fun p => under (toString p.2) (check p.1)) = .ok xs := by
    induction xs with
    | nil => exact fun _ => rfl
    | cons x xs ih =>
      intro n
      obtain ⟨first, rest⟩ := List.forall_mem_cons.mp h
      exact all_cons (congrArg (under (toString n)) first) (ih rest (n + 1))
  exact read 0

/-- A mapping is read entry by entry. -/
theorem entries_written {fs : List (String × α)} (h : ∀ f ∈ fs, check (write f.2) = .ok f.2) :
    entries check (.ofFields (fs.map fun (n, a) => (n, write a))) = .ok fs := by
  rw [Value.ofFields, entries, List.map_map, List.map_map]
  induction fs with
  | nil => rfl
  | cons f fs ih =>
    obtain ⟨first, rest⟩ := List.forall_mem_cons.mp h
    refine all_cons ?_ (ih rest)
    show apply _ (under _ (check (write f.2))) = _
    rw [first]
    rfl

theorem Member.read_of_found {m : Member} {es : List (Value × Value)} {v : Value} {a : α} {absent : Checked α}
    (found : m.get? es = some v) (read : check v = .ok a) : m.read es check absent = .ok a := by
  rw [Member.read, found]
  show under m.name (check v) = _
  rw [read]
  rfl

/-- Nothing is left over where all keys are texts that members take. -/
theorem extras_eq_ok {members : List Member} {open_ : Bool} {es : List (Value × Value)}
    (h : ∀ e ∈ es, ∃ s, e.1 = .str s ∧ (open_ = true ∨ s ∈ members.map fun m => m.key es)) :
    extras members open_ es = .ok () := by
  rw [extras, all_map_eq_ok fun e he => ?_]
  · rfl
  · exact fun _ => ()
  · obtain ⟨s, same, taken⟩ := h e he
    obtain ⟨k, v⟩ := e
    obtain rfl : k = .str s := same
    have taken : (open_ || (members.map fun m => m.key es).contains s) = true := by simpa using taken
    show (if open_ || (members.map fun m => m.key es).contains s then _ else _) = _
    rw [taken]
    rfl

theorem filledText_str {s : String} (h : s ≠ "") : filledText (.str s) = .ok s := by
  have filled : s.isEmpty = false := by simpa using h
  show (if s.isEmpty then _ else _) = _
  rw [filled]
  rfl

/-- What may be left out is read where it is written, and is not taken for what is left out. -/
theorem optional_written {a : Option α} (filled : ∀ x, write x ≠ .null) (read : ∀ x, check (write x) = .ok x) :
    Checked.optional check ((a.map write).getD .null) = .ok a := by
  cases a with
  | none => rfl
  | some x =>
    show Checked.optional check (write x) = _
    unfold Checked.optional
    split
    · rename_i null
      exact absurd null (filled x)
    · rw [read]
      rfl

theorem optional_text (s : Option String) : Checked.optional text (Document.optionalText s) = .ok s :=
  optional_written (fun _ => Value.noConfusion) fun _ => rfl

theorem oneOf_written {choices : List (String × α)} {s : String} {a : α} (h : choices.lookup s = some a) (shown : String) :
    oneOf choices shown (.str s) = .ok a := by
  rw [oneOf, h]

end Checked

namespace Document

open Checked

/-! ### Fields -/

/-- All members of a field, as they are written. -/
def FieldDecl.members (f : FieldDecl) : Fields :=
  [("type", .str f.type), ("reducer", optionalText f.reducer), ("default", f.default), ("nullable", .bool f.nullable)]

/-- The field with those members that are given. -/
def FieldDecl.written (f : FieldDecl) : Value := .ofFields ((members f).filter fun m => f.given.contains m.1)

/-- The members that are not given have the values that stand for them. -/
structure FieldDecl.Stands (f : FieldDecl) : Prop where
  given : f.given = (fieldMembers.map Member.name).filter f.given.contains
  type : "type" ∉ f.given → f.type = "any"
  reducer : "reducer" ∉ f.given → f.reducer = none
  default : "default" ∉ f.given → f.default = .null
  nullable : "nullable" ∉ f.given → f.nullable = false

theorem find?_given (fs : Fields) (given : List String) (n : String) :
    Value.find? ((fs.filter fun m => given.contains m.1).map fun (k, v) => (.str k, v)) (.str n) =
      if n ∈ given then fs.get? n else none := by
  induction fs with
  | nil => simp [Value.find?, Fields.get?]
  | cons f fs ih =>
    obtain ⟨k, v⟩ := f
    have here (es : List (Value × Value)) :
        Value.find? ((.str k, v) :: es) (.str n) = if n = k then some v else Value.find? es (.str n) := by
      by_cases same : n = k
      · simp [Value.find?, same]
      · simp [Value.find?, same, beq_eq_false_iff_ne.mpr same]
    have there : Fields.get? ((k, v) :: fs) n = if n = k then some v else Fields.get? fs n := by
      by_cases same : n = k
      · simp [Fields.get?, same]
      · simp [Fields.get?, List.lookup_cons, same, beq_eq_false_iff_ne.mpr same]
    rw [there, List.filter_cons]
    by_cases given' : k ∈ given
    · rw [if_pos (List.contains_iff_mem.mpr given'), List.map_cons, here, ih]
      by_cases same : n = k
      · rw [if_pos same, if_pos same, if_pos (same ▸ given')]
      · rw [if_neg same, if_neg same]
    · rw [if_neg (mt List.contains_iff_mem.mp given'), ih]
      by_cases same : n = k
      · rw [same, if_neg given', if_neg given']
      · rw [if_neg same]

theorem FieldDecl.Stands.read_written {f : FieldDecl} (h : Stands f) :
    record "FieldDecl" fieldDecl (written f) = .ok f := by
  generalize hes : ((members f).filter fun m => f.given.contains m.1).map (fun (k, v) => (Value.str k, v)) = es
  have found (n : String) : Value.find? es (.str n) = if n ∈ f.given then (members f).get? n else none := by
    rw [← hes, find?_given]
  have read {α : Type} (n : String) (check : Value → Checked α) (absent a : α) (v : Value) (hv : (members f).get? n = some v)
      (some : check v = .ok a) (none : n ∉ f.given → a = absent) :
      (Member.mk n n).read es check (.ok absent) = .ok a := by
    by_cases hn : n ∈ f.given
    · exact Member.read_of_found (by simp only [Member.get?, found, if_pos hn, hv]; rfl) some
    · rw [Member.read, Member.get?, found, if_neg hn, none hn]
      rfl
  have type : (Member.mk "type" "type").read es text (.ok "any") = .ok f.type := read _ _ _ _ _ rfl rfl h.type
  have reducer : (Member.mk "reducer" "reducer").read es (optional text) (.ok none) = .ok f.reducer :=
    read _ _ _ _ _ rfl (optional_text _) h.reducer
  have default : (Member.mk "default" "default").read es .ok (.ok .null) = .ok f.default :=
    read _ _ _ _ _ rfl rfl h.default
  have nullable : (Member.mk "nullable" "nullable").read es boolean (.ok false) = .ok f.nullable :=
    read _ _ _ _ _ rfl rfl h.nullable
  have more : extras fieldMembers false es = .ok () := by
    refine extras_eq_ok fun e he => ?_
    rw [← hes] at he
    obtain ⟨m, hm, rfl⟩ := List.mem_map.mp he
    have used : fieldMembers.map (fun m => m.key es) = fieldMembers.map Member.name :=
      List.map_congr_left fun m hm => by
        obtain ⟨n, -, rfl⟩ := List.mem_map.mp hm
        exact ite_self n
    rw [used]
    exact ⟨m.1, rfl, .inr <| List.mem_map_of_mem (f := Prod.fst) (List.mem_filter.mp hm).1⟩
  have got (m : Member) (hm : m ∈ fieldMembers) :
      ((m.get? es).map fun _ => m.name) = if f.given.contains m.name then some m.name else none := by
    obtain ⟨n, hn, rfl⟩ := List.mem_map.mp hm
    obtain ⟨v, hv⟩ : ∃ v, (members f).get? n = some v := by
      simp only [List.mem_cons, List.not_mem_nil, or_false] at hn
      rcases hn with rfl | rfl | rfl | rfl <;> exact ⟨_, rfl⟩
    rw [Member.get?, found, hv]
    by_cases hn : n ∈ f.given <;> simp [hn]
  have given (ms : List Member) (hms : ∀ m ∈ ms, m ∈ fieldMembers) :
      (ms.filterMap fun m => (m.get? es).map fun _ => m.name) = (ms.map Member.name).filter f.given.contains := by
    induction ms with
    | nil => rfl
    | cons m ms ih =>
      obtain ⟨first, rest⟩ := List.forall_mem_cons.mp hms
      rw [List.filterMap_cons, got m first, List.map_cons, List.filter_cons, ih rest]
      cases f.given.contains m.name <;> rfl
  have given : (fieldMembers.filterMap fun m => (m.get? es).map fun _ => m.name) = f.given :=
    (given _ fun _ h => h).trans h.given.symm
  rw [written, Value.ofFields, hes, record, fieldDecl]
  rw [type, reducer, default, nullable, more, given]
  rfl

/-! ### Nodes and edges -/

theorem NodeDecl.read_toValue {n : NodeDecl} (h : n.id ≠ "") : record "NodeDecl" nodeDecl (toValue n) = .ok n := by
  have kind : oneOf nodeKinds "'function' or 'tool'" (.str n.kind.name) = .ok n.kind :=
    oneOf_written (by cases n.kind <;> rfl) _
  have capabilities : entries boolean (.ofFields (n.capabilities.map fun c => (c.1, .bool c.2))) = .ok n.capabilities :=
    entries_written fun _ _ => rfl
  have metadata : entries .ok (.ofFields n.metadata) = .ok n.metadata := by
    have read : entries .ok (.ofFields (n.metadata.map fun m => (m.1, id m.2))) = .ok n.metadata :=
      entries_written fun _ _ => rfl
    rwa [show (n.metadata.map fun m => (m.1, id m.2)) = n.metadata from List.map_id _] at read
  have messagesKey : text (.str n.messagesKey) = .ok n.messagesKey := rfl
  show nodeDecl [(.str "id", .str n.id), (.str "kind", .str n.kind.name), (.str "handler", optionalText n.handler),
    (.str "capabilities", .ofFields (n.capabilities.map fun c => (c.1, .bool c.2))),
    (.str "messagesKey", .str n.messagesKey), (.str "metadata", .ofFields n.metadata)] = _
  rw [nodeDecl, Member.read_of_found (m := idMember) rfl (filledText_str h), Member.read_of_found rfl kind,
    Member.read_of_found rfl (optional_text n.handler), Member.read_of_found rfl capabilities,
    Member.read_of_found rfl messagesKey, Member.read_of_found rfl metadata]
  rfl

/-- Targets are read from a list, and labels from a mapping. -/
theorem choicesOf_toValue (c : Draft.Choices) : choicesOf c.toValue = .ok c := by
  cases c with
  | targets ids =>
    have read : Checked.list text (.list (ids.map .str)) = .ok ids := list_written fun _ _ => rfl
    rw [choicesOf, Draft.Choices.toValue, read]
  | labelled paths =>
    have read : entries text (.ofFields (paths.map fun p => (p.1, .str p.2))) = .ok paths :=
      entries_written fun _ _ => rfl
    show choicesOf (.ofFields (paths.map fun p => (p.1, .str p.2))) = _
    rw [choicesOf, read]
    rfl

theorem EdgeDecl.read_toValue {e : EdgeDecl} (h : e.source ≠ "") : record "EdgeDecl" edgeDecl (toValue e) = .ok e := by
  have possible : Checked.optional choicesOf e.possibleValue = .ok e.possible :=
    optional_written (fun c => by cases c <;> exact Value.noConfusion) choicesOf_toValue
  have pathMap : Checked.optional (entries text) ((e.pathMap.map fun paths =>
      Value.ofFields (paths.map fun p => (p.1, .str p.2))).getD .null) = .ok e.pathMap :=
    optional_written (fun _ => Value.noConfusion) fun _ => entries_written fun _ _ => rfl
  show edgeDecl [(.str "from", .str e.source), (.str "to", optionalText e.target),
    (.str "condition", optionalText e.condition), (.str "possibleTargets", e.possibleValue), (.str "pathMap", _)] = _
  rw [edgeDecl, Member.read_of_found (m := fromMember) rfl (filledText_str h),
    Member.read_of_found (m := toMember) rfl (optional_text e.target),
    Member.read_of_found (m := conditionMember) rfl (optional_text e.condition), Member.read_of_found rfl possible,
    Member.read_of_found rfl pathMap]
  rfl

/-! ### Documents -/

/-- What is said about the graph can be read: it asks for a known kind of store, and has no member of its own besides. -/
structure GraphDecl.Stands (g : GraphDecl) : Prop where
  checkpointer : ∀ s, g.checkpointer = some s → storeKinds.lookup s = some s
  more : ∀ m ∈ g.more, m.1 ∉ graphMembers.map Member.name

theorem GraphDecl.read_toValue {g : GraphDecl} (h : Stands g) :
    record "StateGraphDecl" graphDecl (toValue g) = .ok g := by
  have checkpointer : Checked.optional (oneOf storeKinds "'memory', 'sqlite' or 'json'")
      (optionalText g.checkpointer) = .ok g.checkpointer := by
    cases hc : g.checkpointer with
    | none => rfl
    | some s =>
      show (oneOf storeKinds _ (.str s)).map some = _
      rw [oneOf_written (h.checkpointer s hc)]
      rfl
  let es : List (Value × Value) := (.str "annotation", optionalText g.annotation) ::
    (.str "checkpointer", optionalText g.checkpointer) :: (.str "store", optionalText g.store) ::
    g.more.map fun m => (.str m.1, m.2)
  have more : ((es.map fun e => (e.1.text, e.2)).filter fun m => !graphMembers.any fun g => g.name == m.1) =
      g.more := by
    have others : (g.more.filter fun m => !graphMembers.any fun g => g.name == m.1) = g.more := by
      refine List.filter_eq_self.mpr fun m hm => ?_
      have other := h.more m hm
      simp only [graphMembers, List.map_cons, List.map_nil, List.mem_cons, List.not_mem_nil, or_false, not_or] at other
      obtain ⟨a, b, c⟩ := other
      simp [graphMembers, Ne.symm a, Ne.symm b, Ne.symm c]
    have texts : ((g.more.map fun m => (Value.str m.1, m.2)).map fun e => (e.1.text, e.2)) = g.more :=
      List.map_map.trans (List.map_id _)
    show ((g.more.map fun m => (Value.str m.1, m.2)).map fun e => (e.1.text, e.2)).filter _ = _
    rw [texts]
    exact others
  have taken : extras graphMembers true es = .ok () := extras_eq_ok fun e he => by
    simp only [es, List.mem_cons, List.mem_map] at he
    rcases he with rfl | rfl | rfl | ⟨m, -, rfl⟩ <;> exact ⟨_, rfl, .inl rfl⟩
  show graphDecl es = _
  rw [graphDecl, more, Member.read_of_found (m := annotationMember) rfl (optional_text g.annotation),
    Member.read_of_found (m := checkpointerMember) rfl checkpointer,
    Member.read_of_found (m := storeMember) rfl (optional_text g.store), taken]
  rfl

/-- The document with the members that its fields give. -/
def written (d : Document) : Value :=
  .ofFields [("stateAnnotation", optionalText d.stateAnnotation),
    ("annotation", .ofFields (d.annotation.map fun (n, f) => (n, FieldDecl.written f))),
    ("nodes", .list (d.nodes.map NodeDecl.toValue)), ("edges", .list (d.edges.map EdgeDecl.toValue)),
    ("stateGraph", GraphDecl.toValue d.stateGraph)]

/-- The document can be read: its nodes and the sources of its edges have names. -/
structure Stands (d : Document) : Prop where
  fields : ∀ f ∈ d.annotation, FieldDecl.Stands f.2
  nodes : ∀ n ∈ d.nodes, n.id ≠ ""
  edges : ∀ e ∈ d.edges, e.source ≠ ""
  graph : GraphDecl.Stands d.stateGraph

theorem load_of_ofEntries {es : List (Value × Value)} {d : Document} (h : ofEntries es = .ok d) :
    load (.mapping es) = .ok d := by
  simp only [load, bind, Except.bind, h]
  rfl

/-- A document that is written is read back. -/
theorem load_written {d : Document} (h : d.Stands) : load d.written = .ok d := by
  have annotation : entries (record "FieldDecl" fieldDecl)
      (.ofFields (d.annotation.map fun (n, f) => (n, FieldDecl.written f))) = .ok d.annotation :=
    entries_written fun f hf => (h.fields f hf).read_written
  have nodes : Checked.list (record "NodeDecl" nodeDecl) (.list (d.nodes.map NodeDecl.toValue)) = .ok d.nodes :=
    list_written fun n hn => NodeDecl.read_toValue (h.nodes n hn)
  have edges : Checked.list (record "EdgeDecl" edgeDecl) (.list (d.edges.map EdgeDecl.toValue)) = .ok d.edges :=
    list_written fun e he => EdgeDecl.read_toValue (h.edges e he)
  have read : ofEntries [(.str "stateAnnotation", optionalText d.stateAnnotation),
      (.str "annotation", .ofFields (d.annotation.map fun (n, f) => (n, FieldDecl.written f))),
      (.str "nodes", .list (d.nodes.map NodeDecl.toValue)), (.str "edges", .list (d.edges.map EdgeDecl.toValue)),
      (.str "stateGraph", GraphDecl.toValue d.stateGraph)] = .ok d := by
    rw [ofEntries, Member.read_of_found (m := stateMember) rfl (optional_text d.stateAnnotation),
      Member.read_of_found rfl annotation, Member.read_of_found rfl nodes, Member.read_of_found rfl edges,
      Member.read_of_found rfl (GraphDecl.read_toValue h.graph)]
    rfl
  exact load_of_ofEntries read

end Document

end Workflow
