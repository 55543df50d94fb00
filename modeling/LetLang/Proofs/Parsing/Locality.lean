import LetLang.Proofs.Parsing.Progress

namespace LetLang.Parser

/-- The kinds of token that an expression can have. -/
def expressionKinds : List TokenKind :=
  [.kwTrue, .kwFalse, .number, .string, .identifier, .leftParen, .rightParen, .caret, .bang,
    .minus, .asterisk, .slash, .plus, .greater, .greaterEqual, .less, .lessEqual, .equalEqual,
    .notEqual, .kwAnd, .kwOr, .equal, .comma]

/-- No expression goes on with these tokens. -/
def EndsExpression (ts : List Token) : Prop := ∀ t ∈ ts.head?, t.kind ∉ expressionKinds

theorem endsExpression_semicolon {s : Token} (hs : s.kind = .semicolon) (rest : List Token) :
    EndsExpression (s :: rest) := by
  simp [EndsExpression, hs, expressionKinds]

def Complaint.extend (x : List Token) (c : Complaint) : Complaint := ⟨c.ahead ++ x, c.error⟩

/-- The outcome with more tokens behind those that are left. -/
def Outcome.extend {α : Type} (x : List Token) (o : Outcome α) : Outcome α :=
  ⟨o.result, o.rest ++ x, o.complaints.map (·.extend x)⟩

/-- Tokens that end an expression are left as they are, and nothing depends on them. -/
def Local {α : Type} (f : Parse α) : Prop :=
  ∀ us x, EndsExpression x → f (us ++ x) = (f us).extend x

section
variable {α β : Type} {f : Parse α} {g : α → Parse β}

theorem local_pure (a : α) : Local (pure a : Parse α) := fun _ _ _ => rfl

theorem local_fail (e : SyntaxError) : Local (fail e : Parse α) := fun _ _ _ => rfl

/-- After a local parser, at one place. -/
theorem Local.bind_extend (hf : Local f) {us x : List Token} (hx : EndsExpression x)
    {g' : α → Parse β} (hg : ∀ a, (f us).result = some a →
      g' a ((f us).rest ++ x) = (g a (f us).rest).extend x) :
    (f >>= g') (us ++ x) = ((f >>= g) us).extend x := by
  have hu := hf us x hx
  cases hr : (f us).result with
  | none =>
    rw [bind_of_none hr, bind_of_none (by rw [hu]; exact hr), hu]
    rfl
  | some a =>
    rw [bind_of_some hr, bind_of_some (by rw [hu]; exact hr), hu]
    simp [Outcome.extend, hg a hr]

theorem Local.bind (hf : Local f) (hg : ∀ a, Local (g a)) : Local (f >>= g) :=
  fun _ x hx => hf.bind_extend hx fun a _ => hg a _ x hx

/-- The tokens ahead may be looked at if more of them behind make no difference. -/
theorem local_lookahead_bind {g : List Token → Parse β}
    (h : ∀ us x, EndsExpression x → g (us ++ x) (us ++ x) = (g us us).extend x) :
    Local (lookahead >>= g) := by
  intro us x hx
  rw [lookahead_bind, lookahead_bind, h us x hx]

/-- After a token that may be there, at one place. -/
theorem accept_bind_extend {kinds : List TokenKind} {g g' : Option Token → Parse β}
    (hk : ∀ k ∈ kinds, k ∈ expressionKinds) {us x : List Token} (hx : EndsExpression x)
    (hn : g' none (us ++ x) = (g none us).extend x)
    (hs : ∀ t rest, us = t :: rest → g' (some t) (rest ++ x) = (g (some t) rest).extend x) :
    (accept kinds >>= g') (us ++ x) = ((accept kinds >>= g) us).extend x := by
  obtain h | ⟨t, rest, rfl, h⟩ := head_cases kinds us
  · have h' : ∀ t ∈ (us ++ x).head?, t.kind ∉ kinds := by
      cases us with
      | nil => exact fun t ht => mt (hk t.kind) (hx t ht)
      | cons u us => exact h
    rw [accept_bind_of_not_mem h, accept_bind_of_not_mem h', hn]
  · rw [List.cons_append, accept_bind_of_mem h, accept_bind_of_mem h, hs t rest rfl]

theorem Local.accept {kinds : List TokenKind} {g : Option Token → Parse β}
    (hk : ∀ k ∈ kinds, k ∈ expressionKinds) (hn : Local (g none)) (hs : ∀ t, Local (g (some t))) :
    Local (accept kinds >>= g) :=
  fun us x hx => accept_bind_extend hk hx (hn us x hx) fun t rest _ => hs t rest x hx

theorem local_expect {kind : TokenKind} (hk : kind ∈ expressionKinds) (e : SyntaxError) :
    Local (expect kind e) :=
  Local.accept (by simpa using hk) (local_fail e) local_pure

theorem local_orAbsent {kind : TokenKind} (hk : kind ∈ expressionKinds) {f : Parse Node}
    (h : Local f) : Local (orAbsent kind f) :=
  Local.accept (by simpa using hk) (local_pure _) fun _ => h

end

section
variable {operators : List TokenKind} {build : Node → Token → Node → Node} {operand : Parse Node}
  (hk : ∀ k ∈ operators, k ∈ expressionKinds) (ho : Local operand) (hs : Steady 0 operand)
include hk ho hs

theorem chainFrom_extend {x : List Token} (hx : EndsExpression x) (us : List Token) (left : Node) :
    chainFrom operators build operand (us ++ x) left (us ++ x) =
      (chainFrom operators build operand us left us).extend x := by
  rw [chainFrom_self hs, chainFrom_self hs]
  refine accept_bind_extend hk hx rfl fun t rest he => ho.bind_extend hx fun right _ => ?_
  rw [lookahead_bind, lookahead_bind]
  have : (operand rest).rest.length < us.length := by
    rw [he]
    exact Nat.lt_succ_of_le (hs rest).suffix.length_le
  exact chainFrom_extend hx _ _
termination_by us.length

theorem chain_local : Local (chain operators build operand) :=
  ho.bind fun first => local_lookahead_bind fun us _ hx => chainFrom_extend hk ho hs hx us first

end

/-- The parsers of expressions one level deeper. -/
structure DeeperLocal (deeper : Deeper) : Prop where
  expression : Local deeper.expression
  assignment : Local deeper.assignment
  unary : Local deeper.unary

section
variable {deeper : Deeper} (hd : DeeperLocal deeper)
include hd

theorem primary_local : Local (primary deeper) := by
  refine Local.accept (by decide) (local_fail _) fun t => ?_
  dsimp only
  split
  · exact local_pure _
  · exact local_pure _
  · exact local_pure _
  · exact hd.expression.bind fun inner => (local_expect (by decide) _).bind fun _ => local_pure _
  · exact local_pure _

theorem exponent_local : Local (exponent deeper) :=
  (primary_local hd).bind fun _ => Local.accept (by decide) (local_pure _) fun _ =>
    hd.unary.bind fun _ => local_pure _

theorem unary_local : Local (unary deeper) :=
  Local.accept (by decide) (exponent_local hd) fun _ => hd.unary.bind fun _ => local_pure _

variable (hs : DeeperSteady deeper)
include hs

theorem sum_local : Local (sum deeper) :=
  chain_local (by decide) (chain_local (by decide) (unary_local hd) (unary_steady hs).weaken)
    (chain_steady (unary_steady hs)).weaken

theorem equality_local : Local (equality deeper) :=
  chain_local (by decide) (chain_local (by decide) (sum_local hd hs) (sum_steady hs).weaken)
    (chain_steady (sum_steady hs)).weaken

theorem disjunction_local : Local (disjunction deeper) := by
  have he : Steady 1 (equality deeper) := chain_steady (chain_steady (sum_steady hs))
  exact chain_local (by decide) (chain_local (by decide) (equality_local hd hs) he.weaken)
    (chain_steady he).weaken

theorem assignment_local : Local (assignment deeper) := by
  refine (disjunction_local hd hs).bind fun target => local_lookahead_bind fun us x hx => ?_
  refine accept_bind_extend (by decide) hx rfl fun t rest _ => ?_
  refine hd.assignment.bind_extend hx fun value _ => ?_
  cases target <;> rfl

/-- An expression is parsed by the tokens before the first one that no expression can have. -/
theorem expression_local : Local (expression deeper) :=
  chain_local (by decide) (assignment_local hd hs) (assignment_steady hs).weaken

end

theorem deeperWithin_local (n : Nat) : DeeperLocal (deeperWithin n) := by
  induction n with
  | zero => exact ⟨local_fail _, local_fail _, local_fail _⟩
  | succ n ih =>
    have hs := deeperWithin_steady n
    exact ⟨expression_local ih hs, assignment_local ih hs, unary_local ih⟩

theorem expression_within_local (n : Nat) : Local (expression (deeperWithin n)) :=
  expression_local (deeperWithin_local n) (deeperWithin_steady n)

end LetLang.Parser
