import LetLang.Parser.Statement
import LetLang.Proofs.Parsing.Shape

namespace LetLang.Parser
open Node

section
variable {α β : Type}

/-- The parser takes the first ones of its tokens, and what it builds goes with them. -/
def Builds (goesWith : List Token → α → Prop) (f : Parse α) : Prop :=
  ∀ ts, ∃ used, ts = used ++ (f ts).rest ∧ ∀ a, (f ts).result = some a → goesWith used a

variable {Q R : List Token → α → Prop} {S : List Token → β → Prop} {f : Parse α} {g : α → Parse β}

theorem Builds.mono (h : Builds Q f) (hr : ∀ used a, Q used a → R used a) : Builds R f := by
  intro ts
  obtain ⟨used, hu, hq⟩ := h ts
  exact ⟨used, hu, fun a ha => hr used a (hq a ha)⟩

theorem builds_pure {a : α} (h : Q [] a) : Builds Q (pure a) := by
  refine fun ts => ⟨[], rfl, ?_⟩
  rintro _ ⟨⟩
  exact h

theorem builds_fail (e : SyntaxError) : Builds Q (fail e) := fun _ => ⟨[], rfl, nofun⟩

theorem builds_complain (ahead : List Token) (e : SyntaxError) :
    Builds (fun used _ => used = []) (complain ahead e) :=
  fun _ => ⟨[], rfl, fun _ _ => rfl⟩

theorem builds_lookahead : Builds (fun used _ => used = []) lookahead :=
  fun _ => ⟨[], rfl, fun _ _ => rfl⟩

theorem Builds.bind (hf : Builds Q f)
    (hg : ∀ used a, Q used a → Builds (fun more b => S (used ++ more) b) (g a)) :
    Builds S (f >>= g) := by
  intro ts
  obtain ⟨used, hu, hq⟩ := hf ts
  simp only [Bind.bind, Parse.bind]
  split
  · exact ⟨used, hu, nofun⟩
  · next a ha =>
    obtain ⟨more, hm, hs⟩ := hg used a (hq a ha) (f ts).rest
    refine ⟨used ++ more, ?_, hs⟩
    rw [List.append_assoc, ← hm, ← hu]

/-- What is accepted is one token of a kind that is asked for, or nothing. -/
inductive Accepted (kinds : List TokenKind) : List Token → Option Token → Prop
  | none : Accepted kinds [] none
  | some {t : Token} (kind : t.kind ∈ kinds) : Accepted kinds [t] (some t)

theorem builds_accept (kinds : List TokenKind) : Builds (Accepted kinds) (accept kinds) := by
  intro ts
  unfold accept
  split
  · next t rest =>
    split
    · next h =>
      refine ⟨[t], rfl, ?_⟩
      rintro _ ⟨⟩
      exact .some h
    · refine ⟨[], rfl, ?_⟩
      rintro _ ⟨⟩
      exact .none
  · refine ⟨[], rfl, ?_⟩
    rintro _ ⟨⟩
    exact .none

/-- Goes on after a token that may be there. -/
theorem Builds.accept {kinds : List TokenKind} {k : Option Token → Parse β}
    (hn : Builds S (k none))
    (hs : ∀ t, t.kind ∈ kinds → Builds (fun more b => S (t :: more) b) (k (some t))) :
    Builds S (accept kinds >>= k) := by
  refine (builds_accept kinds).bind ?_
  rintro _ _ (_ | kind)
  · exact hn
  · exact hs _ kind

theorem builds_expect (kind : TokenKind) (e : SyntaxError) :
    Builds (fun used t => used = [t] ∧ t.kind = kind) (expect kind e) := by
  refine Builds.accept (builds_fail e) fun t ht => builds_pure ⟨rfl, ?_⟩
  exact List.mem_singleton.1 ht

/-- Goes on after a token that must be there. -/
theorem Builds.expect {kind : TokenKind} {e : SyntaxError} {k : Token → Parse β}
    (h : ∀ t, t.kind = kind → Builds (fun more b => S (t :: more) b) (k t)) :
    Builds S (expect kind e >>= k) := by
  refine (builds_expect kind e).bind ?_
  rintro _ t ⟨rfl, ht⟩
  exact h t ht

end

section
variable {Q : List Token → Node → Prop} {operators : List TokenKind}
  {build : Node → Token → Node → Node} {operand : Parse Node}

theorem builds_chainFrom
    (hb : ∀ ts us l o r, Q ts l → o.kind ∈ operators → Q us r → Q (ts ++ o :: us) (build l o r))
    (ho : Builds Q operand) (bound : List Token) {used : List Token} {left : Node} (hl : Q used left) :
    Builds (fun more e => Q (used ++ more) e) (chainFrom operators build operand bound left) := by
  induction bound generalizing used left with
  | nil => exact builds_pure (by rwa [List.append_nil])
  | cons b bound ih =>
    refine Builds.accept (builds_pure (by rwa [List.append_nil])) fun o hk => ho.bind ?_
    intro more right hr
    exact (ih (hb used more left o right hl hk hr)).mono fun last e h => by simpa using h

theorem builds_chain
    (hb : ∀ ts us l o r, Q ts l → o.kind ∈ operators → Q us r → Q (ts ++ o :: us) (build l o r))
    (ho : Builds Q operand) : Builds Q (chain operators build operand) := by
  refine ho.bind fun used first hf => builds_lookahead.bind ?_
  rintro _ bound rfl
  exact builds_chainFrom hb ho bound hf

end

/-- Skipped tokens are tokens that were there. -/
theorem resume_suffix (ts : List Token) : resume ts <:+ ts := by
  induction ts with
  | nil => exact List.suffix_refl []
  | cons t rest ih =>
    unfold resume
    split
    · exact List.suffix_cons t rest
    split
    · exact List.nil_suffix
    split
    · exact List.suffix_cons t _
    · exact ih.trans (List.suffix_cons t _)

/-- What the parsers of the next level build nests less deeply. -/
structure DeeperBuilds (n : Nat) (deeper : Deeper) : Prop where
  expression : Builds (fun ts e => ∃ m, m < n ∧ IsExpression m ts e) deeper.expression
  assignment : Builds (fun ts e => ∃ m, m < n ∧ IsExpression m ts e) deeper.assignment
  unary : Builds (fun ts e => ∃ m, m < n ∧ IsExpression m ts e) deeper.unary
  statement : Builds (fun ts s => ∃ m, m < n ∧ IsStatement m ts s) deeper.statement
  declaration : Builds (fun ts d => ∀ node, d = some node → ∃ m, m < n ∧ IsDeclaration m ts node)
    deeper.declaration

section
variable {n : Nat} {deeper : Deeper} (hd : DeeperBuilds n deeper)
include hd

theorem builds_groupingRest : Builds (IsExpression n) (groupingRest deeper) := by
  refine hd.expression.bind ?_
  rintro ts e ⟨m, level, inner⟩
  refine Builds.expect fun t _ => builds_pure (.grouping level (inner.within ?_))
  exact List.sublist_append_left ts [t]

theorem builds_primary : Builds (IsExpression n) (primary deeper) := by
  refine Builds.accept (builds_fail _) fun t ht => ?_
  dsimp only
  split
  · exact builds_pure (.truth true)
  · exact builds_pure (.truth false)
  · next hk => exact builds_pure (.var hk (List.Sublist.refl [t]))
  · exact (builds_groupingRest hd).mono fun more e h => h.within (List.sublist_cons_self t more)
  · next nt nf ni np =>
    refine builds_pure (.literal ?_ (List.Sublist.refl [t]))
    simpa [show t.kind ≠ _ from nt, show t.kind ≠ _ from nf, show t.kind ≠ _ from ni,
      show t.kind ≠ _ from np] using ht

theorem builds_exponent : Builds (IsExpression n) (exponent deeper) := by
  refine (builds_primary hd).bind fun ts base hb => ?_
  refine Builds.accept (builds_pure (by rwa [List.append_nil])) fun o ho => hd.unary.bind ?_
  rintro us power ⟨m, level, hp⟩
  refine builds_pure (.power level (List.mem_singleton.1 ho) hb hp ?_)
  simp only [List.append_nil, List.Sublist.refl]

theorem builds_unary : Builds (IsExpression n) (unary deeper) := by
  refine Builds.accept (builds_exponent hd) fun o ho => hd.unary.bind ?_
  rintro us e ⟨m, level, he⟩
  refine builds_pure (.unary level ho he ?_)
  simp only [List.append_nil, List.Sublist.refl]

omit hd in
theorem builds_binary {kinds : List TokenKind} (hk : ∀ k ∈ kinds, k ∈ chainedKinds)
    {operand : Parse Node} (h : Builds (IsExpression n) operand) :
    Builds (IsExpression n) (chain kinds .binary operand) :=
  builds_chain (fun _ _ _ _ _ hl ho hr => .binary (hk _ ho) hl hr (List.Sublist.refl _)) h

theorem builds_sum : Builds (IsExpression n) (sum deeper) :=
  builds_binary (by decide) (builds_binary (by decide) (builds_unary hd))

omit hd in
theorem builds_logical {kind : TokenKind} (hk : kind ∈ [.kwAnd, .kwOr])
    {operand : Parse Node} (h : Builds (IsExpression n) operand) :
    Builds (IsExpression n) (chain [kind] .logical operand) :=
  builds_chain (fun _ _ _ _ _ hl ho hr =>
    .logical (List.mem_singleton.1 ho ▸ hk) hl hr (List.Sublist.refl _)) h

theorem builds_disjunction : Builds (IsExpression n) (disjunction deeper) := by
  have he : Builds (IsExpression n) (equality deeper) :=
    builds_binary (by decide) (builds_binary (by decide) (builds_sum hd))
  exact builds_logical (by decide) (builds_logical (by decide) he)

theorem builds_assignment : Builds (IsExpression n) (assignment deeper) := by
  refine (builds_disjunction hd).bind fun ts target ht => builds_lookahead.bind ?_
  rintro _ ahead rfl
  refine Builds.accept (builds_pure (by simpa using ht)) fun o ho => hd.assignment.bind ?_
  rintro us value ⟨m, level, hv⟩
  split
  · next name =>
    cases ht with
    | var kind used =>
      refine builds_pure (.assign level kind hv ?_)
      simpa using used.append (List.sublist_cons_self o us)
  · refine (builds_complain ahead _).bind ?_
    rintro _ _ rfl
    exact builds_pure (ht.within (List.sublist_append_left ..))

theorem builds_expression : Builds (IsExpression n) (expression deeper) :=
  builds_binary (by decide) (builds_assignment hd)

theorem builds_varDecl : Builds (IsDeclaration n) (varDecl deeper) := by
  refine Builds.expect fun name hn => Builds.accept ?_ fun o ho => ?_
  · refine Builds.expect fun t _ => builds_pure (.varDecl hn ?_)
    simp
  · refine (builds_expression hd).bind fun us e he => ?_
    refine Builds.expect fun t _ => builds_pure (.initialized hn he ?_)
    simp

theorem builds_exprStmt {build : Node → Node}
    (hb : ∀ ts e, IsExpression n ts e → IsStatement n ts (build e)) :
    Builds (IsStatement n) (exprStmt deeper build) := by
  refine (builds_expression hd).bind fun ts e he => ?_
  refine Builds.expect fun t _ => builds_pure ((hb ts e he).within ?_)
  exact List.sublist_append_left ts [t]

theorem builds_blockBody (bound : List Token) :
    Builds (IsBody n) (blockBody deeper.declaration bound) := by
  induction bound with
  | nil => exact builds_pure .nil
  | cons b bound ih =>
    refine builds_lookahead.bind ?_
    rintro _ ahead rfl
    split
    · exact builds_pure .nil
    split
    · exact builds_pure .nil
    refine hd.declaration.bind fun ts first hf => ih.bind fun us others ho => ?_
    cases first with
    | none => exact builds_pure (ho.within (by simp))
    | some d =>
      obtain ⟨m, level, hd⟩ := hf d rfl
      exact builds_pure (.cons level hd ho (by simp))

theorem builds_block : Builds (IsBody n) (block deeper) := by
  refine builds_lookahead.bind ?_
  rintro _ bound rfl
  refine (builds_blockBody hd bound).bind fun ts body hb => ?_
  exact Builds.expect fun t _ => builds_pure (hb.within (by simp))

theorem builds_forStmt {k : Token} (hk : k.kind = .kwFor) :
    Builds (fun ts s => IsStatement n (k :: ts) s) (forStmt deeper k) := by
  refine Builds.expect fun name _ => Builds.expect fun t _ => ?_
  refine (builds_sum hd).bind fun ts a ha => Builds.expect fun dots _ => ?_
  refine (builds_sum hd).bind fun us b hb => Builds.expect fun u _ => ?_
  refine (builds_block hd).bind fun vs body hs => builds_pure (.forStmt hk ha hb hs ?_)
  have hu : (us ++ vs).Sublist (dots :: (us ++ u :: vs)) :=
    ((List.Sublist.refl us).append (List.sublist_cons_self u vs)).cons dots
  have ht : (ts ++ (us ++ vs)).Sublist (name :: t :: (ts ++ dots :: (us ++ u :: vs))) :=
    (((List.Sublist.refl ts).append hu).cons t).cons name
  simpa using ht

theorem builds_whileStmt : Builds (IsStatement n) (whileStmt deeper) := by
  refine (builds_expression hd).bind fun ts c hc => Builds.expect fun t _ => ?_
  refine (builds_block hd).bind fun us body hs => builds_pure (.whileStmt hc hs ?_)
  simp

theorem builds_ifStmt : Builds (IsStatement n) (ifStmt deeper) := by
  refine (builds_expression hd).bind fun ts c hc => Builds.expect fun t _ => hd.statement.bind ?_
  rintro us s ⟨m, level, hs⟩
  refine Builds.accept ?_ fun o _ => hd.statement.bind ?_
  · refine builds_pure (.ifThen level hc hs ?_)
    simp
  · rintro vs s' ⟨m', level', hs'⟩
    refine builds_pure (.ifElse level level' hc hs hs' ?_)
    simp

theorem builds_statement : Builds (IsStatement n) (statement deeper) := by
  refine Builds.accept (builds_exprStmt hd fun _ _ => .exprStmt) fun t ht => ?_
  have hw : ∀ us s, IsStatement n us s → IsStatement n (t :: us) s :=
    fun us s h => h.within (List.sublist_cons_self t us)
  dsimp only
  split
  · exact (builds_ifStmt hd).mono hw
  · exact (builds_exprStmt hd fun _ _ => .printStmt).mono hw
  · next hk => exact builds_forStmt hd hk
  · exact (builds_whileStmt hd).mono hw

theorem builds_declarationOrFail : Builds (IsDeclaration n) (declarationOrFail deeper) := by
  refine Builds.accept ((builds_statement hd).mono fun _ _ => .statement) fun t _ => ?_
  exact (builds_varDecl hd).mono fun us d h => h.within (List.sublist_cons_self t us)

theorem builds_declaration :
    Builds (fun ts d => ∀ node, d = some node → IsDeclaration n ts node) (declaration deeper) := by
  intro ts
  obtain ⟨used, hu, hq⟩ := builds_declarationOrFail hd ts
  unfold declaration
  dsimp only
  split
  · next node hn =>
    refine ⟨used, hu, ?_⟩
    rintro _ ⟨⟩ _ ⟨⟩
    exact hq node hn
  · obtain ⟨skipped, hs⟩ := resume_suffix (declarationOrFail deeper ts).rest
    refine ⟨used ++ skipped, ?_, ?_⟩
    · rw [List.append_assoc, hs, ← hu]
    · rintro _ ⟨⟩ _ ⟨⟩

end

theorem deeperWithin_builds (n : Nat) : DeeperBuilds n (deeperWithin n) := by
  induction n with
  | zero => exact ⟨builds_fail _, builds_fail _, builds_fail _, builds_fail _, builds_fail _⟩
  | succ n ih =>
    refine ⟨?_, ?_, ?_, ?_, ?_⟩
    · exact (builds_expression ih).mono fun _ _ h => ⟨n, Nat.lt_succ_self n, h⟩
    · exact (builds_assignment ih).mono fun _ _ h => ⟨n, Nat.lt_succ_self n, h⟩
    · exact (builds_unary ih).mono fun _ _ h => ⟨n, Nat.lt_succ_self n, h⟩
    · exact (builds_statement ih).mono fun _ _ h => ⟨n, Nat.lt_succ_self n, h⟩
    · exact (builds_declaration ih).mono fun _ _ h d hd => ⟨n, Nat.lt_succ_self n, h d hd⟩

theorem isBody_declarations {n : Nat} {deeper : Deeper} (hd : DeeperBuilds n deeper)
    (bound ts : List Token) :
    IsBody (n + 1) ts (declarations (declaration deeper) bound ts).1 := by
  induction bound generalizing ts with
  | nil => exact .nil
  | cons b bound ih =>
    cases ts with
    | nil => exact .nil
    | cons t ts =>
      obtain ⟨used, hu, hq⟩ := builds_declaration hd (t :: ts)
      have ho := ih (declaration deeper (t :: ts)).rest
      rw [declarations]
      generalize declaration deeper (t :: ts) = o at hu hq ho ⊢
      rw [hu]
      cases hf : o.result.join with
      | none => exact ho.within (List.sublist_append_right used o.rest)
      | some node =>
        have hn := hq (some node) (Option.join_eq_some_iff.1 hf) node rfl
        exact .cons (Nat.lt_succ_self n) hn ho (List.Sublist.refl _)

/-- What is left of a program after its errors consists of declarations that are made of tokens of
the text and nest as deep as allowed at most. -/
theorem isBody_parse (tokens : List Token) :
    IsBody (maxNesting + 1) (body tokens) (parse tokens).program :=
  isBody_declarations (deeperWithin_builds maxNesting) _ _

end LetLang.Parser
