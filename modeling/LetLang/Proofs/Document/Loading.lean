import LetLang.Proofs.Document.Codec

namespace LetLang.Document

/-- Not an object with the mark of nil. -/
def Unmarked (v : Value) : Prop :=
  ∀ fields, v = .data (.obj fields) → Json.field? nilMark fields ≠ some (.str "Nil")

/-- No literal of the tree passes for nil. -/
def IsWritable (a : Node) : Prop := ∀ v ∈ a.literals, Unmarked v

def AreWritable (s : List Node) : Prop := ∀ v ∈ Node.allLiterals s, Unmarked v

/-- An object with the mark is loaded as nil. -/
theorem unmarked_value (j : Json) : Unmarked (value j) := by
  intro fields h
  cases j with
  | obj given =>
    rw [value] at h
    split at h
    · cases h
    · next hm =>
      cases h
      exact hm
  | null | bool | int | float | str | arr => cases h

section
variable {α β : Type}

/-- Anything that is loaded has the property. -/
def Loads (P : α → Prop) (x : Except LoadError α) : Prop := ∀ a, x = .ok a → P a

variable {P : α → Prop} {Q : β → Prop}

theorem loads_ok {a : α} (h : P a) : Loads P (.ok a) := by
  rintro _ ⟨⟩
  exact h

theorem loads_error (e : LoadError) : Loads P (.error e) := nofun

theorem Loads.bind {x : Except LoadError α} {f : α → Except LoadError β} (hx : Loads P x)
    (hf : ∀ a, P a → Loads Q (f a)) : Loads Q (x >>= f) := by
  cases x with
  | error e => exact nofun
  | ok a => exact hf a (hx a rfl)

theorem loads_any (x : Except LoadError α) : Loads (fun _ => True) x := fun _ _ => trivial

end

/-- A field with a writable tree or writable trees in it, if any. -/
structure Field.IsSafe (field : Field) : Prop where
  node : Loads IsWritable field.node
  body : Loads AreWritable field.body

section
variable {fields : List (String × Field)} (h : ∀ x ∈ fields, x.2.IsSafe)
include h

theorem isSafe_of_lookup {name : String} {field : Field} (hl : fields.lookup name = some field) :
    field.IsSafe := by
  obtain ⟨before, after, rfl, -⟩ := List.lookup_eq_some_iff.1 hl
  exact h _ (List.mem_append_right before List.mem_cons_self)

theorem loads_requiredField (name : String) : Loads Field.IsSafe (requiredField name fields) := by
  unfold requiredField
  split
  · next hl => exact loads_ok (isSafe_of_lookup h hl)
  · exact loads_error _

theorem loads_child (name : String) : Loads IsWritable (child name fields) :=
  (loads_requiredField h name).bind fun _ hf => hf.node

theorem loads_childOrAbsent (name : String) : Loads IsWritable (childOrAbsent name fields) := by
  unfold childOrAbsent
  split
  · next hl => exact (isSafe_of_lookup h hl).node
  · exact loads_ok (List.forall_mem_nil _)

theorem loads_bodyOf : Loads AreWritable (bodyOf fields) :=
  (loads_requiredField h "body").bind fun _ hf => hf.body

theorem loads_build (tag : String) : Loads IsWritable (build tag fields) := by
  have hc := loads_child h
  unfold build
  split
  · exact (hc _).bind fun a ha => loads_ok ha
  · exact (hc _).bind fun a ha => loads_ok ha
  · exact (loads_any _).bind fun _ _ => (loads_childOrAbsent h _).bind fun a ha => loads_ok ha
  · refine (hc _).bind fun a ha => (hc _).bind fun b hb => ?_
    refine (loads_childOrAbsent h _).bind fun c hc => loads_ok ?_
    exact List.forall_mem_append.2 ⟨ha, List.forall_mem_append.2 ⟨hb, hc⟩⟩
  · refine (loads_any _).bind fun _ _ => (hc _).bind fun a ha => (hc _).bind fun b hb => ?_
    refine (loads_bodyOf h).bind fun s hs => loads_ok ?_
    exact List.forall_mem_append.2 ⟨ha, List.forall_mem_append.2 ⟨hb, hs⟩⟩
  · refine (hc _).bind fun a ha => (loads_bodyOf h).bind fun s hs => loads_ok ?_
    exact List.forall_mem_append.2 ⟨ha, hs⟩
  · refine (loads_requiredField h _).bind fun field _ => loads_ok ?_
    exact List.forall_mem_singleton.2 (unmarked_value field.raw)
  · refine (hc _).bind fun a ha => (loads_any _).bind fun _ _ => (hc _).bind fun b hb => loads_ok ?_
    exact List.forall_mem_append.2 ⟨ha, hb⟩
  · refine (hc _).bind fun a ha => (loads_any _).bind fun _ _ => (hc _).bind fun b hb => loads_ok ?_
    exact List.forall_mem_append.2 ⟨ha, hb⟩
  · exact (loads_any _).bind fun _ _ => (hc _).bind fun a ha => loads_ok ha
  · exact (hc _).bind fun a ha => loads_ok ha
  · exact (loads_any _).bind fun _ _ => loads_ok (List.forall_mem_nil _)
  · exact (loads_any _).bind fun _ _ => (hc _).bind fun a ha => loads_ok ha
  · exact loads_error _

theorem loads_buildTagged : Loads IsWritable (buildTagged fields) := by
  unfold buildTagged
  split
  · exact loads_build h _
  · exact loads_error _
  · exact loads_error _

end

theorem loads_emptyList (isEmpty : Bool) : Loads AreWritable (emptyList isEmpty) := by
  cases isEmpty with
  | true => exact loads_ok (List.forall_mem_nil _)
  | false => exact loads_error _

mutual
/-- Whatever a tree is loaded from, it can be written. -/
theorem loads_node : ∀ j : Json, Loads IsWritable (node j)
  | .null => loads_ok (List.forall_mem_nil _)
  | .obj fields => loads_buildTagged (isSafe_nodeFields fields)
  | .bool _ | .int _ | .float _ | .str _ | .arr _ => loads_error _
theorem isSafe_nodeFields : ∀ fields : List (String × Json), ∀ x ∈ nodeFields fields, x.2.IsSafe
  | [] => List.forall_mem_nil _
  | (_, v) :: fields =>
    List.forall_mem_cons.2 ⟨⟨loads_node v, loads_nodeList v⟩, isSafe_nodeFields fields⟩
theorem loads_nodeList : ∀ j : Json, Loads AreWritable (nodeList j)
  | .arr items => loads_nodes items
  | .str s => loads_emptyList s.isEmpty
  | .obj fields => loads_emptyList fields.isEmpty
  | .null | .bool _ | .int _ | .float _ => loads_error _
theorem loads_nodes : ∀ items : List Json, Loads AreWritable (nodes items)
  | [] => loads_ok (List.forall_mem_nil _)
  | item :: items =>
    (loads_node item).bind fun _ ha => (loads_nodes items).bind fun _ hs =>
      loads_ok (List.forall_mem_append.2 ⟨ha, hs⟩)
end

theorem loads_program (j : Json) : Loads AreWritable (program j) := by
  unfold program
  split
  · split
    · exact (loads_any _).bind fun body _ => loads_nodeList body
    · exact loads_error _
  · exact loads_error _

theorem node_ofNode_iff (a : Node) : node (ofNode a) = .ok a ↔ IsWritable a :=
  ⟨loads_node _ a, fun h => node_ofNode a fun v hv => (comesBack_iff v).2 (h v hv)⟩

theorem program_ofProgram_iff (s : List Node) : program (ofProgram s) = .ok s ↔ AreWritable s :=
  ⟨loads_program _ s, fun h => program_ofProgram fun v hv => (comesBack_iff v).2 (h v hv)⟩

/-- Loading undoes writing, for the trees without an object that passes for nil. Only such trees
are loaded, whatever they are loaded from. So what was loaded is written and loaded to the same
tree, and written once more to the same document. -/
theorem loading_undoes_writing :
    (∀ a, node (ofNode a) = .ok a ↔ IsWritable a) ∧
    (∀ s, program (ofProgram s) = .ok s ↔ AreWritable s) ∧
    (∀ j a, node j = .ok a → IsWritable a ∧ node (ofNode a) = .ok a ∧
      (node (ofNode a)).map ofNode = .ok (ofNode a)) ∧
    ∀ j s, program j = .ok s → AreWritable s ∧ program (ofProgram s) = .ok s ∧
      (program (ofProgram s)).map ofProgram = .ok (ofProgram s) := by
  refine ⟨node_ofNode_iff, program_ofProgram_iff, fun j a h => ?_, fun j s h => ?_⟩
  · have hw := loads_node j a h
    have hload := (node_ofNode_iff a).2 hw
    exact ⟨hw, hload, by rw [hload]; rfl⟩
  · have hw := loads_program j s h
    have hload := (program_ofProgram_iff s).2 hw
    exact ⟨hw, hload, by rw [hload]; rfl⟩

/-- Fields in another order, a field that is not read, no literal, and a text for the line. -/
example : (node (.obj [("name", .obj [("line", .str " 1_0 "), ("lexeme", .int 5),
    ("kind", .str "PLUS")]), ("more", .null), ("type", .str "Variable")])).map ofNode =
    .ok (tagged "Variable" [("name", .obj [("kind", .str "PLUS"), ("lexeme", .int 5),
      ("literal", .null), ("line", .int 10)])]) := by
  rfl

end LetLang.Document
