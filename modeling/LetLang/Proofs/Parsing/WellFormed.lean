import LetLang.Proofs.Execution.Safety

namespace LetLang

namespace Node

/-- The operators between operands that are both evaluated. -/
def binaryKinds : List TokenKind := .caret :: chainedKinds

/-- Can the node be a branch? A declaration cannot. -/
def isBranch : Node → Bool
  | .varDecl _ _ => false
  | node => node.isStatement

/-- A truth value, or what a number or a string among the tokens stands for. -/
def IsLiteralOf (tokens : List Token) (v : Value) : Prop :=
  (∃ b, v = .bool b) ∨ ∃ t ∈ tokens, (t.kind = .number ∨ t.kind = .string) ∧ v = .data t.literal

section
variable (tokens : List Token)

mutual
/-- Every child is there and of the right sort, except that an initializer and an `else` branch
may be missing, and every token is of a kind that its place allows. -/
def IsWellFormed : Node → Prop
  | .absent => True
  | .literal v => IsLiteralOf tokens v
  | .var name => name.kind = .identifier
  | .grouping e => e.isExpression = true ∧ e.IsWellFormed
  | .unary o e => o.kind ∈ [.bang, .minus] ∧ e.isExpression = true ∧ e.IsWellFormed
  | .binary l o r => o.kind ∈ binaryKinds ∧ l.isExpression = true ∧ r.isExpression = true ∧
      l.IsWellFormed ∧ r.IsWellFormed
  | .logical l o r => o.kind ∈ [.kwAnd, .kwOr] ∧ l.isExpression = true ∧ r.isExpression = true ∧
      l.IsWellFormed ∧ r.IsWellFormed
  | .assign name e => name.kind = .identifier ∧ e.isExpression = true ∧ e.IsWellFormed
  | .exprStmt e | .printStmt e => e.isExpression = true ∧ e.IsWellFormed
  | .varDecl name e => name.kind = .identifier ∧ (e = .absent ∨ e.isExpression = true) ∧
      e.IsWellFormed
  | .ifStmt c a b => c.isExpression = true ∧ a.isBranch = true ∧
      (b = .absent ∨ b.isBranch = true) ∧ c.IsWellFormed ∧ a.IsWellFormed ∧ b.IsWellFormed
  | .forStmt k a b body => k.kind = .kwFor ∧ a.isExpression = true ∧ b.isExpression = true ∧
      a.IsWellFormed ∧ b.IsWellFormed ∧ AreWellFormed body
  | .whileStmt c body => c.isExpression = true ∧ c.IsWellFormed ∧ AreWellFormed body
/-- The statements of a block. -/
def AreWellFormed : List Node → Prop
  | [] => True
  | s :: body => s.isStatement = true ∧ s.IsWellFormed ∧ AreWellFormed body
end

end

mutual
/-- The levels inside one another: one inside of parentheses, at the operand of a sign, an
exponent, an assigned value, the branches of a condition and the statements of a block. -/
def nesting : Node → Nat
  | .absent | .literal _ | .var _ => 0
  | .grouping e | .unary _ e | .assign _ e => e.nesting + 1
  | .binary l o r =>
    if o.kind = .caret then max l.nesting (r.nesting + 1) else max l.nesting r.nesting
  | .logical l _ r => max l.nesting r.nesting
  | .exprStmt e | .printStmt e | .varDecl _ e => e.nesting
  | .ifStmt c a b => max c.nesting (max (a.nesting + 1) (b.nesting + 1))
  | .forStmt _ a b body => max a.nesting (max b.nesting (blockNesting body))
  | .whileStmt c body => max c.nesting (blockNesting body)
def blockNesting : List Node → Nat
  | [] => 0
  | s :: body => max (s.nesting + 1) (blockNesting body)
end

mutual
/-- The tokens in a tree, in the order of the text: an operator stands between its operands, a name
before its value, and the keyword of a loop before its range and its block. -/
def tokens : Node → List Token
  | .absent | .literal _ => []
  | .var name => [name]
  | .binary l o r | .logical l o r => l.tokens ++ o :: r.tokens
  | .unary o e => o :: e.tokens
  | .assign name e | .varDecl name e => name :: e.tokens
  | .grouping e | .exprStmt e | .printStmt e => e.tokens
  | .ifStmt c a b => c.tokens ++ (a.tokens ++ b.tokens)
  | .forStmt k a b body => k :: (a.tokens ++ (b.tokens ++ allTokens body))
  | .whileStmt c body => c.tokens ++ allTokens body
def allTokens : List Node → List Token
  | [] => []
  | s :: body => s.tokens ++ allTokens body
end

/-- A tree with the given tokens at most that nests so deep at most. -/
structure IsTreeWithin (tokens : List Token) (n : Nat) (used : List Token) (node : Node) :
    Prop where
  form : node.IsWellFormed tokens
  nesting : node.nesting ≤ n
  tokens : node.tokens.Sublist used

structure IsBodyWithin (tokens : List Token) (n : Nat) (used : List Token) (body : List Node) :
    Prop where
  form : AreWellFormed tokens body
  nesting : blockNesting body ≤ n
  tokens : (allTokens body).Sublist used

variable {n : Nat} {input ts : List Token} {node : Node} {body : List Node}

theorem operands_subset {ts us vs : List Token} {o : Token} (used : (ts ++ o :: us).Sublist vs)
    (hs : vs ⊆ input) : ts ⊆ input ∧ us ⊆ input := by
  obtain ⟨hl, hr⟩ := List.append_subset.1 (List.Subset.trans used.subset hs)
  exact ⟨hl, (List.cons_subset.1 hr).2⟩

theorem IsExpression.isTreeWithin (h : IsExpression n ts node) (hs : ts ⊆ input) :
    IsTreeWithin input n ts node := by
  -- On the shape: the parts of a node use different tokens, in the order of the text.
  induction h with
  | truth b => exact ⟨.inl ⟨b, rfl⟩, Nat.zero_le _, List.nil_sublist _⟩
  | @literal _ _ t kind used =>
    have ht : t ∈ input := hs (used.subset (List.mem_singleton_self t))
    exact ⟨.inr ⟨t, ht, kind, rfl⟩, Nat.zero_le _, List.nil_sublist _⟩
  | var kind used => exact ⟨kind, Nat.zero_le _, used⟩
  | grouping level inner ih =>
    have he := ih hs
    exact {
      form := ⟨inner.isExpression, he.form⟩
      nesting := Nat.lt_of_le_of_lt he.nesting level
      tokens := he.tokens }
  | unary level kind operand used ih =>
    have he := ih (List.cons_subset.1 (List.Subset.trans used.subset hs)).2
    exact {
      form := ⟨kind, operand.isExpression, he.form⟩
      nesting := Nat.lt_of_le_of_lt he.nesting level
      tokens := (he.tokens.cons_cons _).trans used }
  | power level kind left right used ihl ihr =>
    obtain ⟨hts, hus⟩ := operands_subset used hs
    have hl := ihl hts
    have hr := ihr hus
    exact {
      form := ⟨by simp [binaryKinds, kind], left.isExpression, right.isExpression, hl.form, hr.form⟩
      nesting := by
        rw [Node.nesting, if_pos kind]
        exact Nat.max_le.2 ⟨hl.nesting, Nat.lt_of_le_of_lt hr.nesting level⟩
      tokens := (hl.tokens.append (hr.tokens.cons_cons _)).trans used }
  | binary kind left right used ihl ihr =>
    obtain ⟨hts, hus⟩ := operands_subset used hs
    have hl := ihl hts
    have hr := ihr hus
    have hc : ∀ k ∈ chainedKinds, k ≠ .caret := by decide
    exact {
      form := ⟨List.mem_cons_of_mem _ kind, left.isExpression, right.isExpression, hl.form, hr.form⟩
      nesting := by
        rw [Node.nesting, if_neg (hc _ kind)]
        exact Nat.max_le.2 ⟨hl.nesting, hr.nesting⟩
      tokens := (hl.tokens.append (hr.tokens.cons_cons _)).trans used }
  | logical kind left right used ihl ihr =>
    obtain ⟨hts, hus⟩ := operands_subset used hs
    have hl := ihl hts
    have hr := ihr hus
    exact {
      form := ⟨kind, left.isExpression, right.isExpression, hl.form, hr.form⟩
      nesting := Nat.max_le.2 ⟨hl.nesting, hr.nesting⟩
      tokens := (hl.tokens.append (hr.tokens.cons_cons _)).trans used }
  | assign level kind value used ih =>
    have he := ih (List.cons_subset.1 (List.Subset.trans used.subset hs)).2
    exact {
      form := ⟨kind, value.isExpression, he.form⟩
      nesting := Nat.lt_of_le_of_lt he.nesting level
      tokens := (he.tokens.cons_cons _).trans used }

theorem IsStatement.isBranch (h : IsStatement n ts node) : node.isBranch = true := by
  cases h <;> rfl

mutual
theorem IsStatement.isTreeWithin {n : Nat} {ts : List Token} {node : Node} :
    IsStatement n ts node → ts ⊆ input → IsTreeWithin input n ts node
  | .exprStmt h, hs | .printStmt h, hs => by
    have he := h.isTreeWithin hs
    exact ⟨⟨h.isExpression, he.form⟩, he.nesting, he.tokens⟩
  | .ifThen level condition thenBranch used, hs => by
    obtain ⟨hu, hv⟩ := List.append_subset.1 (List.Subset.trans used.subset hs)
    have hc := condition.isTreeWithin hu
    have ha := IsStatement.isTreeWithin thenBranch hv
    have hl := Nat.lt_of_le_of_lt ha.nesting level
    exact {
      form := ⟨condition.isExpression, thenBranch.isBranch, .inl rfl, hc.form, ha.form, trivial⟩
      nesting := by
        -- a branch that is missing counts as one that is flat
        have hb : Node.absent.nesting + 1 ≤ n := Nat.lt_of_le_of_lt (Nat.zero_le _) level
        exact Nat.max_le.2 ⟨hc.nesting, Nat.max_le.2 ⟨hl, hb⟩⟩
      tokens := by simpa [Node.tokens] using (hc.tokens.append ha.tokens).trans used }
  | .ifElse level level' condition thenBranch elseBranch used, hs => by
    obtain ⟨hu, hvw⟩ := List.append_subset.1 (List.Subset.trans used.subset hs)
    obtain ⟨hv, hw⟩ := List.append_subset.1 hvw
    have hc := condition.isTreeWithin hu
    have ha := IsStatement.isTreeWithin thenBranch hv
    have hb := IsStatement.isTreeWithin elseBranch hw
    have hl := Nat.lt_of_le_of_lt ha.nesting level
    have hl' := Nat.lt_of_le_of_lt hb.nesting level'
    exact {
      form := ⟨condition.isExpression, thenBranch.isBranch, .inr elseBranch.isBranch, hc.form,
        ha.form, hb.form⟩
      nesting := Nat.max_le.2 ⟨hc.nesting, Nat.max_le.2 ⟨hl, hl'⟩⟩
      tokens := (hc.tokens.append (ha.tokens.append hb.tokens)).trans used }
  | .forStmt kind start finish inside used, hs => by
    obtain ⟨-, hr⟩ := List.cons_subset.1 (List.Subset.trans used.subset hs)
    obtain ⟨hu, hvw⟩ := List.append_subset.1 hr
    obtain ⟨hv, hw⟩ := List.append_subset.1 hvw
    have ha := start.isTreeWithin hu
    have hb := finish.isTreeWithin hv
    have hd := IsBody.isBodyWithin inside hw
    exact {
      form := ⟨kind, start.isExpression, finish.isExpression, ha.form, hb.form, hd.form⟩
      nesting := Nat.max_le.2 ⟨ha.nesting, Nat.max_le.2 ⟨hb.nesting, hd.nesting⟩⟩
      tokens := ((ha.tokens.append (hb.tokens.append hd.tokens)).cons_cons _).trans used }
  | .whileStmt condition inside used, hs => by
    obtain ⟨hu, hv⟩ := List.append_subset.1 (List.Subset.trans used.subset hs)
    have hc := condition.isTreeWithin hu
    have hd := IsBody.isBodyWithin inside hv
    exact {
      form := ⟨condition.isExpression, hc.form, hd.form⟩
      nesting := Nat.max_le.2 ⟨hc.nesting, hd.nesting⟩
      tokens := (hc.tokens.append hd.tokens).trans used }
theorem IsDeclaration.isTreeWithin {n : Nat} {ts : List Token} {node : Node} :
    IsDeclaration n ts node → ts ⊆ input → IsTreeWithin input n ts node
  | .varDecl kind used, _ => ⟨⟨kind, .inl rfl, trivial⟩, Nat.zero_le _, used⟩
  | .initialized kind value used, hs => by
    have he := value.isTreeWithin (List.cons_subset.1 (List.Subset.trans used.subset hs)).2
    exact {
      form := ⟨kind, .inr value.isExpression, he.form⟩
      nesting := he.nesting
      tokens := (he.tokens.cons_cons _).trans used }
  | .statement h, hs => IsStatement.isTreeWithin h hs
theorem IsBody.isBodyWithin {n : Nat} {ts : List Token} {body : List Node} :
    IsBody n ts body → ts ⊆ input → IsBodyWithin input n ts body
  | .nil, _ => ⟨trivial, Nat.zero_le _, List.nil_sublist _⟩
  | .cons level first others used, hs => by
    obtain ⟨hu, hv⟩ := List.append_subset.1 (List.Subset.trans used.subset hs)
    have hf := IsDeclaration.isTreeWithin first hu
    have ho := IsBody.isBodyWithin others hv
    exact {
      form := ⟨first.isStatement, hf.form, ho.form⟩
      nesting := Nat.max_le.2 ⟨Nat.lt_of_le_of_lt hf.nesting level, ho.nesting⟩
      tokens := (hf.tokens.append ho.tokens).trans used }
end

theorem forall_of_areWellFormed (h : AreWellFormed input body) (hn : blockNesting body ≤ n + 1) :
    ∀ s ∈ body, s.isStatement = true ∧ s.IsWellFormed input ∧ s.nesting ≤ n := by
  induction body with
  | nil => exact List.forall_mem_nil _
  | cons s body ih =>
    obtain ⟨hs, hform, hbody⟩ := h
    obtain ⟨hfirst, hothers⟩ := Nat.max_le.1 hn
    exact List.forall_mem_cons.2 ⟨⟨hs, hform, Nat.le_of_succ_le_succ hfirst⟩, ih hbody hothers⟩

end Node

/-- What survives of malformed tokens is well formed, nests as deep as allowed at most, and keeps
the tokens of the input in their order, each of them once at most. -/
theorem Parser.parse_isWellFormed (tokens : List Token) :
    (∀ node ∈ (parse tokens).program,
      node.isStatement = true ∧ node.IsWellFormed tokens ∧ node.nesting ≤ maxNesting) ∧
    (Node.allTokens (parse tokens).program).Sublist tokens := by
  have hp : (body tokens).Sublist tokens := (List.takeWhile_prefix _).sublist
  have h := (isBody_parse tokens).isBodyWithin hp.subset
  exact ⟨Node.forall_of_areWellFormed h.form h.nesting, h.tokens.trans hp⟩

/-- Two statements are dropped, one of them in the block. -/
example : (Node.allTokens (Parser.parse
    (tokenize "a = ; while b begin (c; d = -1; end").tokens).program).map Token.text =
    ["b", "d", "-"] := by
  decide +kernel

end LetLang
