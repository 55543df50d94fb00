import LetLang.Proofs.Parsing.Recovery

namespace LetLang.Parser

section
variable {α β : Type} {e : SyntaxError}

/-- Where the parser takes tokens up to a semicolon, it fails in front of anything else that no
expression goes on with, and without another complaint. -/
def NeedsSemicolon (e : SyntaxError) (f : Parse β) : Prop :=
  ∀ (m x : List Token) (s : Token) (b : β), EndsExpression x →
    (∀ t ∈ x.head?, t.kind ≠ .semicolon) → s.kind = .semicolon →
    f (m ++ [s]) = ⟨some b, [], []⟩ → f (m ++ x) = ⟨none, x, [⟨x, e⟩]⟩

theorem NeedsSemicolon.bind {f : Parse α} {g : α → Parse β} (hl : Local f)
    (hg : ∀ a, NeedsSemicolon e (g a)) : NeedsSemicolon e (f >>= g) := by
  intro m x s b hx hx' hs h
  have hclosed := hl m [s] (endsExpression_semicolon hs [])
  have hopen := hl m x hx
  cases hr : (f m).result with
  | none =>
    rw [bind_of_none (by rw [hclosed]; exact hr)] at h
    simp at h
  | some a =>
    rw [bind_of_some (a := a) (by rw [hclosed]; exact hr), hclosed] at h
    dsimp only [Outcome.extend] at h
    -- nothing was complained about by either of the two parsers
    generalize ho : g a ((f m).rest ++ [s]) = o at h
    obtain ⟨result, rest, complaints⟩ := o
    rw [Outcome.mk.injEq, List.append_eq_nil_iff, List.map_eq_nil_iff] at h
    obtain ⟨rfl, rfl, hc, rfl⟩ := h
    have hfail := hg a _ x s b hx hx' hs ho
    rw [bind_of_some (a := a) (by rw [hopen]; exact hr), hopen]
    simp [Outcome.extend, hc, hfail]

theorem needsSemicolon_expect (e : SyntaxError) (b : β) :
    NeedsSemicolon e (expect .semicolon e >>= fun _ => pure b) := by
  intro m x s b' hx hx' hs h
  rw [bind_pure_eq] at h ⊢
  cases m with
  | nil =>
    rw [List.nil_append, expect_of_ne hx']
    rfl
  | cons t m =>
    by_cases ht : t.kind = .semicolon
    · rw [List.cons_append, expect_of_eq ht] at h
      simp at h
    · rw [List.cons_append, expect_of_ne (by simpa using ht)] at h
      simp at h

variable (n : Nat)

theorem needsSemicolon_exprStmt (build : Node → Node) :
    NeedsSemicolon .expectedSemicolonAfterExpression (exprStmt (deeperWithin n) build) :=
  NeedsSemicolon.bind (expression_within_local n) fun node => needsSemicolon_expect _ (build node)

theorem needsSemicolon_varDecl :
    NeedsSemicolon .expectedSemicolonAfterDeclaration (varDecl (deeperWithin n)) := by
  rw [varDecl_eq]
  exact NeedsSemicolon.bind (local_expect (by decide) _) fun name =>
    NeedsSemicolon.bind (local_orAbsent (by decide) (expression_within_local n)) fun initializer =>
      needsSemicolon_expect _ _

end

/-- A statement that ends with a semicolon of its own. -/
def endsWithSemicolon : Node → Bool
  | .varDecl .. | .printStmt _ | .exprStmt _ => true
  | _ => false

/-- Whatever the parser builds has the property. -/
def Yields {α : Type} (property : α → Prop) (f : Parse α) : Prop :=
  ∀ ts a, (f ts).result = some a → property a

theorem yields_pure {α : Type} {property : α → Prop} {a : α} (h : property a) :
    Yields property (pure a : Parse α) := by
  rintro ts _ ⟨⟩
  exact h

theorem Yields.bind {α β : Type} {property : β → Prop} {f : Parse α} {g : α → Parse β}
    (hg : ∀ a, Yields property (g a)) : Yields property (f >>= g) := by
  intro ts b hb
  cases hr : (f ts).result with
  | none =>
    rw [bind_of_none hr] at hb
    cases hb
  | some a =>
    rw [bind_of_some hr] at hb
    exact hg a _ b hb

section
variable (deeper : Deeper)

theorem yields_ifStmt : Yields (endsWithSemicolon · = false) (ifStmt deeper) := by
  rw [ifStmt_eq]
  exact Yields.bind fun _ => Yields.bind fun _ => Yields.bind fun _ => Yields.bind fun _ =>
    yields_pure rfl

theorem yields_forStmt (keyword : Token) :
    Yields (endsWithSemicolon · = false) (forStmt deeper keyword) :=
  Yields.bind fun _ => Yields.bind fun _ => Yields.bind fun _ => Yields.bind fun _ =>
    Yields.bind fun _ => Yields.bind fun _ => Yields.bind fun _ => yields_pure rfl

theorem yields_whileStmt : Yields (endsWithSemicolon · = false) (whileStmt deeper) :=
  Yields.bind fun _ => Yields.bind fun _ => Yields.bind fun _ => yields_pure rfl

end

section
variable {n : Nat} {m x : List Token} {s : Token} {node : Node} (hx : EndsExpression x)
  (hx' : ∀ t ∈ x.head?, t.kind ≠ .semicolon) (hs : s.kind = .semicolon)
include hx hx' hs

/-- A statement whose semicolon is missing is complained about where that should stand. -/
theorem statement_missing_semicolon {t : Token}
    (h : statement (deeperWithin n) (t :: m ++ [s]) = ⟨some node, [], []⟩)
    (hnode : endsWithSemicolon node = true) :
    statement (deeperWithin n) (t :: m ++ x) =
      ⟨none, x, [⟨x, .expectedSemicolonAfterExpression⟩]⟩ := by
  by_cases hk : t.kind ∈ [TokenKind.kwIf, .kwPrint, .kwFor, .kwWhile]
  · rw [List.cons_append, statement, accept_bind_of_mem hk] at h ⊢
    -- The other statements with a keyword end in no semicolon, contrary to the hypothesis.
    have hyields {f : Parse Node} (hy : Yields (endsWithSemicolon · = false) f)
        (hf : f (m ++ [s]) = ⟨some node, [], []⟩) : False := by
      have hfalse : endsWithSemicolon node = false := hy _ node (by rw [hf])
      rw [hnode] at hfalse
      cases hfalse
    simp only [List.mem_cons, List.not_mem_nil, or_false] at hk
    obtain hk | hk | hk | hk := hk <;> simp only [hk] at h ⊢
    · exact (hyields (yields_ifStmt _) h).elim
    · exact needsSemicolon_exprStmt n _ m x s node hx hx' hs h
    · exact (hyields (yields_forStmt _ t) h).elim
    · exact (hyields (yields_whileStmt _) h).elim
  · have hn (ts : List Token) : ∀ u ∈ (t :: m ++ ts).head?,
        u.kind ∉ [TokenKind.kwIf, .kwPrint, .kwFor, .kwWhile] := by
      rintro _ ⟨⟩
      exact hk
    rw [statement, accept_bind_of_not_mem (hn _)] at h ⊢
    exact needsSemicolon_exprStmt n _ (t :: m) x s node hx hx' hs h

theorem declarationOrFail_missing_semicolon {t : Token}
    (h : declarationOrFail (deeperWithin n) (t :: m ++ [s]) = ⟨some node, [], []⟩)
    (hnode : endsWithSemicolon node = true) :
    ∃ e ∈ [SyntaxError.expectedSemicolonAfterDeclaration, .expectedSemicolonAfterExpression],
      declarationOrFail (deeperWithin n) (t :: m ++ x) = ⟨none, x, [⟨x, e⟩]⟩ := by
  by_cases hk : t.kind = .kwLet
  · have hmem : t.kind ∈ [TokenKind.kwLet] := by simp [hk]
    rw [List.cons_append, declarationOrFail, accept_bind_of_mem hmem] at h ⊢
    exact ⟨_, List.mem_cons_self, needsSemicolon_varDecl n m x s node hx hx' hs h⟩
  · have hn (ts : List Token) : ∀ u ∈ (t :: m ++ ts).head?, u.kind ≠ .kwLet := by
      rintro _ ⟨⟩
      exact hk
    rw [declarationOrFail_eq_statement _ (hn _)] at h ⊢
    exact ⟨_, by simp, statement_missing_semicolon hx hx' hs h hnode⟩

end

/-- A semicolon alone is no declaration. -/
theorem declarationOrFail_semicolon {n : Nat} {s : Token} (hs : s.kind = .semicolon)
    (rest : List Token) : (declarationOrFail (deeperWithin n) (s :: rest)).result = none := by
  have hl : expression (deeperWithin n) (s :: rest) = _ :=
    expression_within_local n [] (s :: rest) (endsExpression_semicolon hs rest)
  have he : (expression (deeperWithin n) (s :: rest)).result = none := by
    rw [hl]
    show (expression (deeperWithin n) []).result = none
    cases hr : (expression (deeperWithin n) []).result with
    | none => rfl
    | some e =>
      have := (expression_within_steady n []).taken (by rw [hr]; rfl)
      simp at this
  rw [declarationOrFail_eq_statement _ (by simp [hs]),
    statement_eq_exprStmt _ (by simp [startsStatement, hs]), exprStmt, bind_of_none he]

theorem declaration_eq_some {deeper : Deeper} {ts rest : List Token} {node : Node}
    {complaints : List Complaint}
    (h : declaration deeper ts = ⟨some (some node), rest, complaints⟩) :
    declarationOrFail deeper ts = ⟨some node, rest, complaints⟩ := by
  unfold declaration at h
  dsimp only at h
  generalize declarationOrFail deeper ts = o at h ⊢
  obtain ⟨result, rest', complaints'⟩ := o
  cases result with
  | none => cases h
  | some node' =>
    cases h
    rfl

theorem eq_nil_of_program {ts : List Token} (h : program ts = ([], [])) : ts = [] := by
  refine Classical.not_not.1 fun hn => ?_
  rw [program_of_ne_nil hn, Prod.mk.injEq, List.append_eq_nil_iff, List.append_eq_nil_iff] at h
  obtain ⟨node, hnode⟩ := exists_node_of_clean h.2.1
  simp [hnode] at h

/-- A program of one statement is that statement. -/
theorem declaration_of_program_singleton {ts : List Token} {node : Node}
    (h : program ts = ([node], [])) :
    declaration (deeperWithin maxNesting) ts = ⟨some (some node), [], []⟩ := by
  have hn : ts ≠ [] := by
    rintro rfl
    cases h
  rw [program_of_ne_nil hn, Prod.mk.injEq, List.append_eq_nil_iff] at h
  obtain ⟨first, hfirst⟩ := exists_node_of_clean h.2.1
  generalize declaration (deeperWithin maxNesting) ts = o at h hfirst ⊢
  obtain ⟨result, rest, complaints⟩ := o
  obtain rfl : result = some (some first) := hfirst
  obtain ⟨hnodes, rfl, hclean⟩ := h
  obtain ⟨rfl, hnil⟩ := List.cons.inj hnodes
  obtain rfl := eq_nil_of_program (Prod.ext hnil hclean)
  rfl

section
variable {before m : List Token} (after : List Token) {s q : Token} {node : Node}
  (hm : program (m ++ [s]) = ([node], [])) (hnode : endsWithSemicolon node = true)
  (hs : s.kind = .semicolon) (hq : startsStatement q = true)
include hm hnode hs hq

/-- The error is found at the keyword of the next statement, which is skipped. -/
theorem program_missing_semicolon (hbefore : (program before).2 = []) :
    ∃ e ∈ [SyntaxError.expectedSemicolonAfterDeclaration, .expectedSemicolonAfterExpression],
      program (before ++ (m ++ q :: after)) =
        ((program before).1 ++ (program (resume (q :: after))).1,
          ⟨q :: after, e⟩ :: (program (resume (q :: after))).2) := by
  have hd := declaration_eq_some (declaration_of_program_singleton hm)
  have hkinds := of_decide_eq_true hq
  -- The keyword of a statement cannot continue an expression, and is no semicolon either.
  have hends : EndsExpression (q :: after) := by
    rintro _ ⟨⟩
    generalize q.kind = k at hkinds
    revert k
    decide
  have hsemicolon : ∀ t ∈ (q :: after).head?, t.kind ≠ .semicolon := by
    rintro _ ⟨⟩ hk
    simp [hk] at hkinds
  cases m with
  -- A semicolon alone is no statement.
  | nil =>
    rw [List.nil_append] at hd
    have := declarationOrFail_semicolon (n := maxNesting) hs []
    rw [hd] at this
    cases this
  | cons t m =>
    obtain ⟨e, he, hfail⟩ :=
      declarationOrFail_missing_semicolon hends hsemicolon hs hd hnode
    have hclean : (program (t :: m ++ [s])).2 = [] := by rw [hm]
    have hfirst := not_kwElse_of_clean hclean
    have hstart : ∀ u ∈ (t :: m ++ q :: after).head?, u.kind ≠ .kwElse := hfirst
    have hdropped : declaration (deeperWithin maxNesting) (t :: m ++ q :: after) =
        ⟨some none, resume (q :: after), [⟨q :: after, e⟩]⟩ := by
      unfold declaration
      rw [hfail]
    have hmiddle : program (t :: m ++ q :: after) =
        ((program (resume (q :: after))).1,
          ⟨q :: after, e⟩ :: (program (resume (q :: after))).2) := by
      have hn : t :: m ++ q :: after ≠ [] := List.cons_ne_nil t (m ++ q :: after)
      rw [program_of_ne_nil hn, hdropped]
      rfl
    exact ⟨e, he, by rw [program_append hbefore hstart, hmiddle]⟩

end

theorem parse_append_last {ts : List Token} {last : Token} (h : ∀ t ∈ ts, t.kind ≠ .eof)
    (hl : last.kind = .eof) :
    parse (ts ++ [last]) = ⟨(program ts).1, (program ts).2.map (·.report last.line)⟩ := by
  have hline : endLine (ts ++ [last]) = last.line := by
    have hfind : ts.find? (·.kind == .eof) = none := by simpa using h
    simp [endLine, List.find?_append, hfind, hl]
  rw [parse, body_append h hl, hline]

/-- A statement whose semicolon is missing takes the next one along, at least its keyword: the
error is reported there, and the parser goes on as it does after an error at that keyword. If the
next statement is a simple one, the parser goes on behind it. -/
theorem parse_missing_semicolon {before m after : List Token} {s q last : Token} {node : Node}
    (hb : ∀ t ∈ before, t.kind ≠ .eof) (hm : ∀ t ∈ m, t.kind ≠ .eof)
    (ha : ∀ t ∈ after, t.kind ≠ .eof) (hl : last.kind = .eof) (hs : s.kind = .semicolon)
    (hq : startsStatement q = true) (hbefore : (parse (before ++ [last])).reports = [])
    (hone : parse (m ++ [s] ++ [last]) = ⟨[node], []⟩) (hnode : endsWithSemicolon node = true) :
    (∃ e ∈ [SyntaxError.expectedSemicolonAfterDeclaration, .expectedSemicolonAfterExpression],
      parse (before ++ m ++ q :: after ++ [last]) =
        ⟨(parse (before ++ [last])).program ++ (parse (resume (q :: after) ++ [last])).program,
          ⟨q.line, Report.placeAt q.text, e.message⟩ ::
            (parse (resume (q :: after) ++ [last])).reports⟩) ∧
    ∀ inner s' next, after = inner ++ s' :: next → (∀ t ∈ inner, IsInner t) →
      s'.kind = .semicolon → resume (q :: after) = next := by
  have hsemicolon : ∀ t ∈ [s], t.kind ≠ .eof := by simp [hs]
  have hkinds := of_decide_eq_true hq
  have hqk : q.kind ≠ .eof ∧ q.kind ≠ .semicolon := by
    generalize q.kind = k at hkinds
    revert k
    decide
  have hqa : ∀ t ∈ q :: after, t.kind ≠ .eof := List.forall_mem_cons.2 ⟨hqk.1, ha⟩
  have hmq : ∀ t ∈ before ++ m ++ q :: after, t.kind ≠ .eof :=
    List.forall_mem_append.2 ⟨List.forall_mem_append.2 ⟨hb, hm⟩, hqa⟩
  have hrest : ∀ t ∈ resume (q :: after), t.kind ≠ .eof := fun t ht =>
    hqa t ((resume_suffix _).subset ht)
  rw [parse_append_last (List.forall_mem_append.2 ⟨hm, hsemicolon⟩) hl, Parsed.mk.injEq,
    List.map_eq_nil_iff] at hone
  rw [parse_append_last hb hl] at hbefore ⊢
  obtain ⟨e, he, hprogram⟩ := program_missing_semicolon after (Prod.ext hone.1 hone.2)
    hnode hs hq (List.map_eq_nil_iff.1 hbefore)
  refine ⟨⟨e, he, ?_⟩, ?_⟩
  · rw [parse_append_last hmq hl, parse_append_last hrest hl, List.append_assoc, hprogram]
    rfl
  · rintro inner s' next rfl hi hs'
    exact resume_cons_inner hqk.2 hi hs' next

/-- A missing semicolon between two statements, and a third one. -/
theorem parse_missing_semicolon_three :
    let x : Token := ⟨.identifier, .str "x", .str "x", 1⟩
    let semicolon : Token := ⟨.semicolon, .str ";", .null, 1⟩
    let print : Token := ⟨.kwPrint, .str "print", .null, 1⟩
    ∃ e ∈ [SyntaxError.expectedSemicolonAfterDeclaration, .expectedSemicolonAfterExpression],
      parse ([] ++ [x] ++ print :: [x, semicolon, x, semicolon] ++ [.endOfInput 1]) =
        ⟨[.exprStmt (.var x)], [⟨1, Report.placeAt "print", e.message⟩]⟩ := by
  intro x semicolon print
  have hnone : parse ([] ++ [.endOfInput 1]) = ⟨[], []⟩ := by decide
  have hone : parse ([x] ++ [semicolon] ++ [.endOfInput 1]) = ⟨[.exprStmt (.var x)], []⟩ := by
    decide
  have hx : ∀ t ∈ [x], t.kind ≠ .eof := by decide
  have hafter : ∀ t ∈ [x, semicolon, x, semicolon], t.kind ≠ .eof := by decide
  have h := parse_missing_semicolon (List.forall_mem_nil _) hx hafter
    (rfl : (Token.endOfInput 1).kind = .eof) (rfl : semicolon.kind = .semicolon)
    (rfl : startsStatement print = true) (congrArg Parsed.reports hnone) hone rfl
  have hresume : resume (print :: [x, semicolon, x, semicolon]) = [x] ++ [semicolon] :=
    h.2 [x] semicolon [x, semicolon] rfl (by decide) rfl
  rw [hresume, hnone, hone] at h
  exact h.1

/-- Both sides are programs, but the second one is lost when the semicolon of the first one is
missing. -/
theorem parse_missing_semicolon_loses :
    let x : Token := ⟨.identifier, .str "x", .str "x", 1⟩
    let semicolon : Token := ⟨.semicolon, .str ";", .null, 1⟩
    let next : List Token :=
      [⟨.kwPrint, .str "print", .null, 1⟩, ⟨.number, .str "1", .int 1, 1⟩, semicolon]
    let last := Token.endOfInput 1
    (parse [last]).reports = [] ∧ (parse (next ++ [last])).reports = [] ∧
      parse ([x] ++ [semicolon] ++ [last]) = ⟨[.exprStmt (.var x)], []⟩ ∧
      (parse ([] ++ [x] ++ next ++ [last])).program ≠
        (parse ([] ++ [last])).program ++ (parse (next ++ [last])).program := by
  decide

end LetLang.Parser
