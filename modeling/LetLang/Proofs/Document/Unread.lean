import LetLang.Proofs.Document.Format

namespace LetLang.Document

/-- Tokens that agree in what is read of them. -/
inductive AlikeTokens : Json → Json → Prop
  | refl (j : Json) : AlikeTokens j j
  | token {fields fields' : List (String × Json)}
    (kind : Json.field? "kind" fields = Json.field? "kind" fields')
    (lexeme : Json.field? "lexeme" fields = Json.field? "lexeme" fields')
    (literal : (Json.field? "literal" fields).getD .null =
      (Json.field? "literal" fields').getD .null)
    (line : Json.field? "line" fields = Json.field? "line" fields') :
    AlikeTokens (.obj fields) (.obj fields')

mutual
/-- Nodes that agree in what is read of them. -/
inductive Alike : Json → Json → Prop
  | refl (j : Json) : Alike j j
  | node {fields fields' : List (String × Json)}
    (tag : Json.field? "type" fields = Json.field? "type" fields')
    (slots : ∀ tag slots, Json.field? "type" fields = some (.str tag) → layout? tag = some slots →
      ∀ slot ∈ slots, AlikeAt fields fields' slot) : Alike (.obj fields) (.obj fields')
/-- Objects that agree in what is read of them at one of the names. -/
inductive AlikeAt : List (String × Json) → List (String × Json) → String × Slot → Prop
  | same {fields fields' : List (String × Json)} {name : String} {slot : Slot}
    (field : Json.field? name fields = Json.field? name fields') :
    AlikeAt fields fields' (name, slot)
  | token {fields fields' : List (String × Json)} {name : String} {j j' : Json}
    (field : Json.field? name fields = some j) (field' : Json.field? name fields' = some j')
    (tokens : AlikeTokens j j') : AlikeAt fields fields' (name, .token)
  | child {fields fields' : List (String × Json)} {name : String} {j j' : Json}
    (field : Json.field? name fields = some j) (field' : Json.field? name fields' = some j')
    (nodes : Alike j j') : AlikeAt fields fields' (name, .child)
  | optionalChild {fields fields' : List (String × Json)} {name : String}
    (nodes : Alike ((Json.field? name fields).getD .null) ((Json.field? name fields').getD .null)) :
    AlikeAt fields fields' (name, .optionalChild)
  | body {fields fields' : List (String × Json)} {name : String} {j j' : Json}
    {items items' : List Json}
    (field : Json.field? name fields = some j) (field' : Json.field? name fields' = some j')
    (list : elements? j = some items) (list' : elements? j' = some items')
    (nodes : AllAlike items items') : AlikeAt fields fields' (name, .body)
inductive AllAlike : List Json → List Json → Prop
  | nil : AllAlike [] []
  | cons {item item' : Json} {items items' : List Json} (first : Alike item item')
    (others : AllAlike items items') : AllAlike (item :: items) (item' :: items')
end

/-- Documents that agree in what is read of them. -/
inductive AlikeDocuments : Json → Json → Prop
  | refl (j : Json) : AlikeDocuments j j
  | program {fields fields' : List (String × Json)}
    (tag : Json.field? "type" fields = Json.field? "type" fields')
    (body : Json.field? "type" fields = some (.str "Program") →
      AlikeAt fields fields' ("body", .body)) : AlikeDocuments (.obj fields) (.obj fields')

theorem token_eq_of_alike {j j' : Json} (h : AlikeTokens j j') : token j = token j' := by
  cases h with
  | refl => rfl
  | token kind lexeme literal line => simp only [token, required, kind, lexeme, literal, line]

/-- The same is loaded of the objects at one of the names. -/
def SameAt (fields fields' : List (String × Json)) : String × Slot → Prop
  | (name, .token) => tokenOf name (nodeFields fields) = tokenOf name (nodeFields fields')
  | (name, .child) => child name (nodeFields fields) = child name (nodeFields fields')
  | (name, .optionalChild) =>
    childOrAbsent name (nodeFields fields) = childOrAbsent name (nodeFields fields')
  | (name, .body) => required name fields >>= nodeList = required name fields' >>= nodeList
  | (name, .literal) => required name fields = required name fields'

theorem build_congr {tag : String} {slots : List (String × Slot)}
    {fields fields' : List (String × Json)} (known : layout? tag = some slots)
    (h : ∀ slot ∈ slots, SameAt fields fields' slot) :
    build tag (nodeFields fields) = build tag (nodeFields fields') := by
  unfold layout? at known
  split at known <;> cases known <;> simp only [List.forall_mem_cons, SameAt] at h <;>
    simp only [build, bodyOf_nodeFields, requiredField_nodeFields, h]

theorem sameAt_of_eq {fields fields' : List (String × Json)} {name : String}
    (h : Json.field? name fields = Json.field? name fields') (slot : Slot) :
    SameAt fields fields' (name, slot) := by
  cases slot <;> simp [SameAt, required, h]

theorem required_bind {α : Type} {name : String} {fields : List (String × Json)} {j : Json}
    (h : Json.field? name fields = some j) (f : Json → Except LoadError α) :
    required name fields >>= f = f j := by
  rw [required, h]
  rfl

theorem childOrAbsent_eq (name : String) (fields : List (String × Json)) :
    childOrAbsent name (nodeFields fields) = node ((Json.field? name fields).getD .null) := by
  rw [childOrAbsent_nodeFields]
  cases Json.field? name fields <;> rfl

theorem node_congr {fields fields' : List (String × Json)}
    (tag : Json.field? "type" fields = Json.field? "type" fields')
    (slots : ∀ tag slots, Json.field? "type" fields = some (.str tag) → layout? tag = some slots →
      ∀ slot ∈ slots, SameAt fields fields' slot) : node (.obj fields) = node (.obj fields') := by
  rw [node, node, buildTagged, buildTagged, lookup_nodeFields, lookup_nodeFields, ← Json.field?,
    ← Json.field?, ← tag]
  cases ht : Json.field? "type" fields with
  | none => rfl
  | some j =>
    cases j with
    | str tag =>
      cases hs : layout? tag with
      | none => exact (build_unknown hs _).trans (build_unknown hs _).symm
      | some given => exact build_congr hs (slots tag given ht hs)
    | null | bool | int | float | arr | obj => rfl

mutual
theorem node_eq_of_alike {j j' : Json} : Alike j j' → node j = node j'
  | .refl _ => rfl
  | .node tag slots =>
    node_congr tag fun name given ht known slot hm =>
      sameAt_of_alike (slots name given ht known slot hm)
theorem sameAt_of_alike {fields fields' : List (String × Json)} {slot : String × Slot} :
    AlikeAt fields fields' slot → SameAt fields fields' slot
  | .same field => sameAt_of_eq field _
  | .token field field' tokens => by
    rw [SameAt, tokenOf_nodeFields, tokenOf_nodeFields, required_bind field, required_bind field']
    exact token_eq_of_alike tokens
  | .child field field' nodes => by
    rw [SameAt, child_nodeFields, child_nodeFields, required_bind field, required_bind field']
    exact node_eq_of_alike nodes
  | .optionalChild nodes => by
    rw [SameAt, childOrAbsent_eq, childOrAbsent_eq]
    exact node_eq_of_alike nodes
  | .body field field' list list' nodes => by
    rw [SameAt, required_bind field, required_bind field', nodeList_eq list, nodeList_eq list']
    exact nodes_eq_of_alike nodes
theorem nodes_eq_of_alike {items items' : List Json} :
    AllAlike items items' → nodes items = nodes items'
  | .nil => rfl
  | .cons first others => by
    rw [nodes, nodes, node_eq_of_alike first, nodes_eq_of_alike others]
end

theorem program_eq_of_alike {j j' : Json} (h : AlikeDocuments j j') : program j = program j' := by
  cases h with
  | refl => rfl
  | program tag body =>
    rw [program, program, ← tag]
    split
    · next ht => exact sameAt_of_alike (body ht)
    · rfl

/-- A program is loaded from the documents that have the format and from no others. Any other value
fails with its first violation, which determines the error and its text. What is not read makes no
difference. -/
theorem program_format (j : Json) :
    ((∃ s, program j = .ok s) ↔ IsDocument j) ∧
    (∀ e, program j = .error e ↔ DocumentFails j e) ∧
    ∀ j', AlikeDocuments j j' → program j = program j' :=
  ⟨(judges_program j).ok, (judges_program j).error, fun _ => program_eq_of_alike⟩

/-- A name without a line is met before an initializer that is no node, and a field that is not in
the table is not met at all. -/
example : program (.obj [("type", .str "Program"), ("body", .arr [.obj [("more", .int 1),
    ("initializer", .bool true), ("name", .obj [("lexeme", .str "x"), ("kind", .str "IDENTIFIER")]),
    ("type", .str "VarDecl")]])]) = .error (.missingField "line") := by
  rfl

end LetLang.Document
