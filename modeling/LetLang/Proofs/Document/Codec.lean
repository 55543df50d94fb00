import LetLang.Document.Loader
import LetLang.Proofs.Execution.NumberRange
import LetLang.Proofs.Json.RoundTrip

namespace LetLang.Document

@[simp] theorem ok_bind {α β : Type} (x : α) (f : α → Except LoadError β) :
    (Except.ok x >>= f) = f x := rfl

@[simp] theorem pure_eq {α : Type} (x : α) : (pure x : Except LoadError α) = .ok x := rfl

section
variable (name : String) (fields : List (String × Json))

theorem lookup_nodeFields :
    (nodeFields fields).lookup name =
      (fields.lookup name).map fun v => ⟨v, node v, nodeList v⟩ := by
  induction fields with
  | nil => rfl
  | cons field fields ih =>
    rw [nodeFields, List.lookup_cons, List.lookup_cons, ih]
    split <;> rfl

@[simp] theorem requiredField_nodeFields :
    requiredField name (nodeFields fields) =
      (required name fields).map fun v => ⟨v, node v, nodeList v⟩ := by
  rw [requiredField, lookup_nodeFields, required, Json.field?]
  cases fields.lookup name <;> rfl

@[simp] theorem child_nodeFields :
    child name (nodeFields fields) = required name fields >>= node := by
  rw [child, requiredField_nodeFields]
  cases required name fields <;> rfl

@[simp] theorem tokenOf_nodeFields :
    tokenOf name (nodeFields fields) = required name fields >>= token := by
  rw [tokenOf, requiredField_nodeFields]
  cases required name fields <;> rfl

@[simp] theorem bodyOf_nodeFields :
    bodyOf (nodeFields fields) = required "body" fields >>= nodeList := by
  rw [bodyOf, requiredField_nodeFields]
  cases required "body" fields <;> rfl

@[simp] theorem childOrAbsent_nodeFields :
    childOrAbsent name (nodeFields fields) =
      ((Json.field? name fields).map node).getD (.ok .absent) := by
  rw [childOrAbsent, lookup_nodeFields, Json.field?]
  cases fields.lookup name <;> rfl

@[simp] theorem field?_cons (key : String) (v : Json) :
    Json.field? name ((key, v) :: fields) =
      if name = key then some v else Json.field? name fields := by
  rw [Json.field?, List.lookup_cons, beq_eq_decide]
  by_cases h : name = key <;> simp [h, Json.field?]

@[simp] theorem required_cons (key : String) (v : Json) :
    required name ((key, v) :: fields) = if name = key then .ok v else required name fields := by
  rw [required, field?_cons]
  by_cases h : name = key <;> simp [h, required]

/-- An object with a tag is the node of that tag. -/
@[simp] theorem node_tagged (tag : String) :
    node (tagged tag fields) = build tag (nodeFields (("type", .str tag) :: fields)) := rfl

end

@[simp] theorem token_ofToken (t : Token) : token (ofToken t) = .ok t := by
  simp [token, ofToken, kindOf, lineOf, TokenKind.ofName?_name]

/-- The value of a literal is loaded as it was. -/
def ComesBack (v : Value) : Prop := value (ofValue v) = v

/-- Only an object with the mark of nil does not. -/
theorem comesBack_iff (v : Value) :
    ComesBack v ↔
      ∀ fields, v = .data (.obj fields) → Json.field? nilMark fields ≠ some (.str "Nil") := by
  unfold ComesBack
  cases v with
  | nil => simp [ofValue, value]
  | data j => cases j <;> simp [ofValue, value]

mutual
/-- A tree is loaded from the document that it is written as, if each of its literals is. -/
theorem node_ofNode : ∀ a : Node, (∀ v ∈ a.literals, ComesBack v) → node (ofNode a) = .ok a
  | .absent, _ => rfl
  | .var n, _ => by simp [ofNode, build]
  -- The one place where writing may lose something, hence the hypothesis.
  | .literal v, h => by
    have hv : value (ofValue v) = v := h v (List.mem_singleton_self v)
    simp [ofNode, build, Except.map, hv]
  | .unary _ a, h | .grouping a, h | .assign _ a, h | .exprStmt a, h | .printStmt a, h
  | .varDecl _ a, h => by
    have ha := node_ofNode a h
    simp [ofNode, build, ha]
  | .binary a _ b, h | .logical a _ b, h => by
    obtain ⟨ha, hb⟩ := List.forall_mem_append.1 h
    have ha := node_ofNode a ha
    have hb := node_ofNode b hb
    simp [ofNode, build, ha, hb]
  | .ifStmt a b c, h => by
    obtain ⟨ha, hbc⟩ := List.forall_mem_append.1 h
    obtain ⟨hb, hc⟩ := List.forall_mem_append.1 hbc
    have ha := node_ofNode a ha
    have hb := node_ofNode b hb
    have hc := node_ofNode c hc
    simp [ofNode, build, ha, hb, hc]
  | .forStmt k a b s, h => by
    obtain ⟨ha, hbs⟩ := List.forall_mem_append.1 h
    obtain ⟨hb, hs⟩ := List.forall_mem_append.1 hbs
    have ha := node_ofNode a ha
    have hb := node_ofNode b hb
    have hs := nodes_ofNodes s hs
    simp [ofNode, build, nodeList, ha, hb, hs]
  | .whileStmt a s, h => by
    obtain ⟨ha, hs⟩ := List.forall_mem_append.1 h
    have ha := node_ofNode a ha
    have hs := nodes_ofNodes s hs
    simp [ofNode, build, nodeList, ha, hs]
theorem nodes_ofNodes :
    ∀ s : List Node, (∀ v ∈ Node.allLiterals s, ComesBack v) → nodes (ofNodes s) = .ok s
  | [], _ => rfl
  | a :: s, h => by
    obtain ⟨ha, hs⟩ := List.forall_mem_append.1 h
    have ha := node_ofNode a ha
    have hs := nodes_ofNodes s hs
    simp [ofNodes, nodes, ha, hs]
end

theorem program_ofProgram {s : List Node} (h : ∀ v ∈ Node.allLiterals s, ComesBack v) :
    program (ofProgram s) = .ok s := by
  simp [ofProgram, tagged, program, nodeList, nodes_ofNodes s h]

theorem isPlain_ofToken {t : Token} :
    (ofToken t).IsPlain ↔ t.lexeme.IsPlain ∧ t.literal.IsPlain ∧ Number.InRange t.line := by
  simp [ofToken, Json.IsPlain, Json.FieldsPlain]

theorem isPlain_tagged {tag : String} {fields : List (String × Json)} :
    (tagged tag fields).IsPlain ↔
      ("type" :: fields.map Prod.fst).Nodup ∧ Json.FieldsPlain fields := by
  simp [tagged, Json.IsPlain, Json.FieldsPlain]

section
open Node

variable {n : Nat} {tokens : List Token} {node : Node}

theorem isPlain_of_isExpression (h : IsExpression n tokens node)
    (ht : ∀ t ∈ tokens, (ofToken t).IsPlain) : (ofNode node).IsPlain := by
  induction h with
  | truth b => simp [ofNode, isPlain_tagged, ofValue, Json.IsPlain, Json.FieldsPlain]
  | literal kind used =>
    have hm := isPlain_ofToken.1 (ht _ (used.subset (List.mem_singleton_self _)))
    simp [ofNode, isPlain_tagged, ofValue, Json.FieldsPlain, hm.2.1]
  | var kind used =>
    have hm := ht _ (used.subset (List.mem_singleton_self _))
    simp [ofNode, isPlain_tagged, Json.FieldsPlain, hm]
  | grouping level inner ih => simp [ofNode, isPlain_tagged, Json.FieldsPlain, ih ht]
  | unary level kind operand used ih | assign level kind value used ih =>
    have hu := List.forall_mem_cons.1 fun t hm => ht t (used.subset hm)
    simp [ofNode, isPlain_tagged, Json.FieldsPlain, hu.1, ih hu.2]
  | power level kind left right used ihl ihr | binary kind left right used ihl ihr
  | logical kind left right used ihl ihr =>
    have hu := List.forall_mem_append.1 fun t hm => ht t (used.subset hm)
    have hv := List.forall_mem_cons.1 hu.2
    simp [ofNode, isPlain_tagged, Json.FieldsPlain, ihl hu.1, hv.1, ihr hv.2]

mutual
theorem isPlain_of_isStatement {n : Nat} {tokens : List Token} {node : Node} :
    IsStatement n tokens node → (∀ t ∈ tokens, (ofToken t).IsPlain) → (ofNode node).IsPlain
  | .exprStmt h, ht | .printStmt h, ht => by
    simp [ofNode, isPlain_tagged, Json.FieldsPlain, isPlain_of_isExpression h ht]
  | .ifThen _ condition thenBranch used, ht => by
    have hu := List.forall_mem_append.1 fun t hm => ht t (used.subset hm)
    have ha := isPlain_of_isStatement thenBranch hu.2
    simp [ofNode, isPlain_tagged, Json.FieldsPlain, Json.IsPlain,
      isPlain_of_isExpression condition hu.1, ha]
  | .ifElse _ _ condition thenBranch elseBranch used, ht => by
    have hu := List.forall_mem_append.1 fun t hm => ht t (used.subset hm)
    have hv := List.forall_mem_append.1 hu.2
    have ha := isPlain_of_isStatement thenBranch hv.1
    have hb := isPlain_of_isStatement elseBranch hv.2
    simp [ofNode, isPlain_tagged, Json.FieldsPlain, isPlain_of_isExpression condition hu.1, ha, hb]
  | .forStmt _ start finish inside used, ht => by
    have hk := List.forall_mem_cons.1 fun t hm => ht t (used.subset hm)
    have hu := List.forall_mem_append.1 hk.2
    have hv := List.forall_mem_append.1 hu.2
    have hb := arePlain_of_isBody inside hv.2
    simp [ofNode, isPlain_tagged, Json.FieldsPlain, Json.IsPlain, hk.1,
      isPlain_of_isExpression start hu.1, isPlain_of_isExpression finish hv.1, hb]
  | .whileStmt condition inside used, ht => by
    have hu := List.forall_mem_append.1 fun t hm => ht t (used.subset hm)
    have hb := arePlain_of_isBody inside hu.2
    simp [ofNode, isPlain_tagged, Json.FieldsPlain, Json.IsPlain,
      isPlain_of_isExpression condition hu.1, hb]
theorem isPlain_of_isDeclaration {n : Nat} {tokens : List Token} {node : Node} :
    IsDeclaration n tokens node → (∀ t ∈ tokens, (ofToken t).IsPlain) → (ofNode node).IsPlain
  | .varDecl _ used, ht => by
    have hm := ht _ (used.subset (List.mem_singleton_self _))
    simp [ofNode, isPlain_tagged, Json.FieldsPlain, Json.IsPlain, hm]
  | .initialized _ value used, ht => by
    have hu := List.forall_mem_cons.1 fun t hm => ht t (used.subset hm)
    simp [ofNode, isPlain_tagged, Json.FieldsPlain, hu.1, isPlain_of_isExpression value hu.2]
  | .statement h, ht => isPlain_of_isStatement h ht
theorem arePlain_of_isBody {n : Nat} {tokens : List Token} {body : List Node} :
    IsBody n tokens body → (∀ t ∈ tokens, (ofToken t).IsPlain) → Json.ArePlain (ofNodes body)
  | .nil, _ => trivial
  | .cons _ first others used, ht => by
    have hu := List.forall_mem_append.1 fun t hm => ht t (used.subset hm)
    exact ⟨isPlain_of_isDeclaration first hu.1, arePlain_of_isBody others hu.2⟩
end

end

theorem comesBack_of_isRuntime {v : Value} (h : v.IsRuntime) : ComesBack v := by
  rw [comesBack_iff]
  rintro fields rfl
  exact h.elim

theorem isPlain_literal {text : String} {t : Token} (h : t ∈ (tokenize text).tokens) :
    t.literal.IsPlain := by
  have hl := isLexed_of_mem h
  rw [tokenize, List.mem_append, List.mem_filterMap, List.mem_singleton] at h
  obtain ⟨⟨line, p⟩, hx, ht⟩ | rfl := h
  · cases p with
    | token kind chars =>
      cases ht
      -- only a number may be out of range
      cases kind with
      | number =>
        obtain ⟨n, hn, hr⟩ := hl.number rfl
        exact hn ▸ hr
      | _ => trivial
    | blank c | comment text | stray c | badNumber text | openString text => cases ht
  · trivial

theorem isPlain_token {text : String} (hl : Number.InRange (1 + text.toList.count '\n'))
    {t : Token} (h : t ∈ (tokenize text).tokens) : (ofToken t).IsPlain := by
  obtain ⟨⟨s, hs⟩, -, -, hline⟩ := isLexed_of_mem h
  refine isPlain_ofToken.2 ⟨by rw [hs]; trivial, isPlain_literal h, ?_⟩
  unfold Number.InRange at hl ⊢
  omega

theorem isBody_ofText (text : String) :
    Node.IsBody (Parser.maxNesting + 1) (tokenize text).tokens (Source.ofText text).program :=
  (Parser.isBody_parse (tokenize text).tokens).within (List.takeWhile_prefix _).sublist

/-- The document of a program is read back from its text, as long as its lines can be written as
numbers. -/
theorem isPlain_ofText {text : String} (hl : Number.InRange (1 + text.toList.count '\n')) :
    (ofProgram (Source.ofText text).program).IsPlain := by
  have hb := arePlain_of_isBody (isBody_ofText text) fun _ => isPlain_token hl
  simp [ofProgram, isPlain_tagged, Json.FieldsPlain, Json.IsPlain, hb]

/-- The program of a text is loaded from its document. -/
theorem program_ofText (text : String) :
    program (ofProgram (Source.ofText text).program) = .ok (Source.ofText text).program := by
  refine program_ofProgram fun v hv => comesBack_of_isRuntime ?_
  exact (isBody_ofText text).forall_literals admits_isRuntime
    (fun _ ht => (isLexed_of_mem ht).suits admits_isRuntime) v hv

end LetLang.Document
