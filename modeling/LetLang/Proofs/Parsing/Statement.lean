import LetLang.Proofs.Parsing.Expression

namespace LetLang.Parser
open Strict

instance : LawfulMonad Parse :=
  .mk' Parse
    (fun f => by
      funext ts
      exact (bind_pure_eq f id ts).trans (by simp))
    (fun a f => by
      funext ts
      simp only [bind, Parse.bind, pure, Parse.pure, List.nil_append])
    (fun f g h => by
      funext ts
      simp only [bind, Parse.bind]
      cases (f ts).result with
      | none => rfl
      | some a =>
        dsimp only
        cases (g a (f ts).rest).result with
        | none => rfl
        | some b => simp only [List.append_assoc])

section
variable {n : Nat} {r s : Rule} {place : Nat} {deeper : Deeper}

/-- What follows a token, or the missing child where that token does not stand. -/
def orAbsent (kind : TokenKind) (f : Parse Node) : Parse Node := do
  match ← accept [kind] with
  | none => pure .absent
  | some _ => f

/-- The trees of a part that may be missing, and the node for it. -/
def IsMaybe (trees : List Tree) (node : Node) : Prop :=
  (trees = [] ∧ node = .absent) ∨ ∃ t, trees = [t] ∧ t.ast = .node node

theorem orAbsent_mirrors {kind : TokenKind} {f : Parse Node}
    (h : Mirrors (Shallow r place n) (fun trees node => ∃ t, trees = [t] ∧ t.ast = .node node) f
      (.rule s)) :
    Mirrors (Shallow r place n) IsMaybe (orAbsent kind f)
      (.optional (.seq (.skip kind) (.rule s))) := by
  refine mirrors_optional_skip (d := .absent) ?_ rfl (.inl ⟨rfl, rfl⟩) fun _ ts => ?_
  · simp [Pattern.isProper, s.rank_le]
  · exact (h ts).mono (fun _ _ => .inr) fun _ _ _ => Iff.rfl

theorem varDecl_eq (deeper : Deeper) : varDecl deeper =
    (expect .identifier .expectedVariableName >>= fun name =>
      orAbsent .equal (expression deeper) >>= fun initializer =>
      expect .semicolon .expectedSemicolonAfterDeclaration >>= fun _ =>
      pure (.varDecl name initializer)) := by
  rw [varDecl]
  refine bind_congr fun name => ?_
  rw [orAbsent, bind_assoc]
  refine bind_congr fun found => ?_
  cases found <;> rfl

theorem ifStmt_eq (deeper : Deeper) : ifStmt deeper =
    (expression deeper >>= fun condition => expect .kwThen .expectedThen >>= fun _ =>
      deeper.statement >>= fun thenBranch => orAbsent .kwElse deeper.statement >>= fun elseBranch =>
      pure (.ifStmt condition thenBranch elseBranch)) := by
  rw [ifStmt]
  refine bind_congr fun condition => bind_congr fun _ => bind_congr fun thenBranch => ?_
  rw [orAbsent, bind_assoc]
  refine bind_congr fun found => ?_
  cases found <;> rfl

theorem varDecl_mirrors (hd : DeeperFollows n deeper) :
    Mirrors (Shallow .varDecl 0 n)
      (fun children node => astAll (Rule.varDecl.tree children) = [.node node]) (varDecl deeper)
      (.sequence (.keep [.identifier]) [.optional (.seq (.skip .equal) (.rule .expression)),
        .skip .semicolon]) := by
  rw [varDecl_eq]
  refine Mirrors.seq rfl (mirrors_expect_keep rfl rfl n) ?_
  rintro _ name rfl
  refine Mirrors.seq rfl (orAbsent_mirrors ((expression_follows hd).part rfl)) ?_
  intro trees initializer hm
  refine (mirrors_expect_skip rfl _ _ _).map ?_
  rintro _ _ rfl
  obtain ⟨rfl, rfl⟩ | ⟨t, rfl, ht⟩ := hm
  · rfl
  · simp [Rule.tree, Rule.isTransparent, astAll, Tree.ast, Rule.build, combine, ht]

theorem ifStmt_mirrors (hd : DeeperFollows n deeper) :
    Mirrors (Shallow .ifStmt 0 n)
      (fun children node => astAll (Rule.ifStmt.tree children) = [.node node]) (ifStmt deeper)
      (.sequence (.rule .expression) [.skip .kwThen, .rule .statement,
        .optional (.seq (.skip .kwElse) (.rule .statement))]) := by
  rw [ifStmt_eq]
  refine Mirrors.seq rfl ((expression_follows hd).part rfl) ?_
  rintro _ condition ⟨c, rfl, hc⟩
  refine Mirrors.seq rfl (mirrors_expect_skip rfl _ _ _) ?_
  rintro _ _ rfl
  refine Mirrors.seq rfl (hd.statement.part rfl) ?_
  rintro _ thenBranch ⟨t, rfl, ht⟩
  refine (orAbsent_mirrors (hd.statement.part rfl)).map ?_
  rintro trees other (⟨rfl, rfl⟩ | ⟨e, rfl, he⟩)
  · simp [Rule.tree, Rule.isTransparent, astAll, Tree.ast, Rule.build, combine, hc, ht]
  · simp [Rule.tree, Rule.isTransparent, astAll, Tree.ast, Rule.build, combine, hc, ht, he]

/-- An expression that a semicolon ends. -/
theorem exprStmt_mirrors (hd : DeeperFollows n deeper) {build : Node → Node}
    (hr : r.isTransparent = false) (hw : ∀ place, r.weight place = 0)
    (hb : ∀ e, r.build [.node e] = .node (build e)) :
    Mirrors (Shallow r 0 n) (fun children node => astAll (r.tree children) = [.node node])
      (exprStmt deeper build) (.seq (.rule .expression) (.skip .semicolon)) := by
  refine Mirrors.seq rfl ((expression_follows hd).part (hw 0)) ?_
  rintro _ e ⟨t, rfl, ht⟩
  refine (mirrors_expect_skip rfl _ _ _).map ?_
  rintro _ _ rfl
  simp [Rule.tree_eq_node hr, astAll, Tree.ast, ht, hb]

theorem andThen_assoc (first : Strict.Parsed) (second third : List Token → Strict.Parsed) :
    andThen (andThen first second) third = andThen first fun ts => andThen (second ts) third := by
  cases first with
  | error ts => rfl
  | ok parsed =>
    obtain ⟨left, mid⟩ := parsed
    simp only [andThen]
    cases second mid with
    | error ts => rfl
    | ok parsed =>
      obtain ⟨right, rest⟩ := parsed
      simp only [Except.map]
      cases third rest <;> simp

/-- Where the declarations do not end there is one more of them, or an error at its start. -/
theorem reading_declarations {close : List Token → Strict.Parsed} {ts : List Token}
    (hc : close ts = .error ts) :
    andThen (reading (.many (.rule .declaration)) ts) close =
      andThen (reading (.rule .declaration) ts) fun rest =>
        andThen (reading (.many (.rule .declaration)) rest) close := by
  rw [reading_many rfl]
  split
  · rw [andThen_assoc]
  · next h =>
    rw [reading_of_not_canStart rfl rfl (by simpa using h)]
    simp [andThen, hc, Except.map]

theorem reading_declarations_nil (close : List Token → Strict.Parsed) {ts : List Token}
    (hs : canStart (.rule .declaration) ts = false) :
    andThen (reading (.many (.rule .declaration)) ts) close = close ts := by
  rw [reading_many rfl, if_neg (by simp [hs])]
  simp only [andThen]
  cases close ts <;> rfl

theorem shallow_iff {levels : Nat} (hw : ∀ place, r.weight place = levels) {trees : List Tree} :
    Shallow r place n trees ↔ ∀ t ∈ trees, levels + t.nesting ≤ n := by
  induction trees generalizing place with
  | nil => simp [Shallow, nestingFrom]
  | cons tree trees ih =>
    simp only [Shallow, nestingFrom, hw, Nat.max_le, List.forall_mem_cons] at ih ⊢
    rw [ih]

/-- What a parser of declarations in a row makes of their trees. -/
def AreStatements (trees : List Tree) (nodes : List Node) : Prop :=
  statementsOf (astAll trees) = nodes

theorem AreStatements.cons {left right : List Tree} {first : Option Node} {others : List Node}
    (hl : ∃ node, first = some node ∧ astAll left = [.node node]) (hr : AreStatements right others) :
    AreStatements (left ++ right) (first.toList ++ others) := by
  obtain ⟨node, rfl, ha⟩ := hl
  rw [AreStatements, astAll_append, ha]
  rw [AreStatements] at hr
  simp [statementsOf, hr]

/-- Parsing one declaration after another up to an end agrees with reading them, when it does at
the end. -/
theorem row_agrees {levels : Nat} {declaration : Parse (Option Node)}
    {row : List Token → Parse (List Node)} {close : List Token → Strict.Parsed}
    {e : List Token → Prop} (hd : FollowsMaybe n levels declaration .declaration)
    (hnil : e []) (hstart : ∀ ts, e ts → canStart (.rule .declaration) ts = false)
    (hclose : ∀ ts, ¬ e ts → close ts = .error ts)
    (hend : ∀ bound ts, e ts →
      Agrees (fun trees => ∀ t ∈ trees, levels + t.nesting ≤ n) AreStatements (row bound ts) (close ts))
    (hcons : ∀ b bound ts, ¬ e ts → row (b :: bound) ts =
      (declaration >>= fun first => row bound >>= fun others => pure (first.toList ++ others)) ts)
    {bound ts : List Token} (h : ts.length ≤ bound.length) :
    Agrees (fun trees => ∀ t ∈ trees, levels + t.nesting ≤ n) AreStatements (row bound ts)
      (andThen (reading (.many (.rule .declaration)) ts) close) := by
  induction bound generalizing ts with
  | nil =>
    have ht : ts = [] := List.length_eq_zero_iff.1 (Nat.le_zero.1 h)
    subst ht
    rw [reading_declarations_nil _ rfl]
    exact hend [] [] hnil
  | cons b bound ih =>
    -- At the end no declaration can start, and elsewhere closing fails, so there is no choice.
    by_cases he : e ts
    · rw [reading_declarations_nil _ (hstart ts he)]
      exact hend _ ts he
    · rw [hcons b bound ts he, reading_declarations (hclose ts he)]
      refine (hd ts).bind (fun left right h u hu => h u (List.mem_append_left _ hu)) ?_
      intro left first rest hr hm hs
      have hl := length_lt_of_reading rfl hr
      simp only [List.length_cons] at h
      have hrest := ih (show rest.length ≤ bound.length by omega)
      refine (hrest.map ?_).mono (fun _ _ h => h) ?_
      · exact fun right others hr => AreStatements.cons hm hr
      · intro right _ _
        rw [List.forall_mem_append, and_iff_right hs]

/-- The body of a block up to its end. -/
def blockRest (declaration : Parse (Option Node)) (bound : List Token) : Parse (List Node) := do
  let body ← blockBody declaration bound
  let _ ← expect .kwEnd .expectedEnd
  pure body

theorem blockRest_of_end (declaration : Parse (Option Node)) (bound : List Token) {ts : List Token}
    (h : ∀ t ∈ ts.head?, t.kind = .kwEnd) :
    blockRest declaration bound ts = (expect .kwEnd .expectedEnd >>= fun _ => pure []) ts := by
  have hb : blockBody declaration bound ts = ⟨some [], ts, []⟩ := by
    cases bound with
    | nil => rfl
    | cons b bound =>
      rw [blockBody, lookahead_bind]
      cases ts with
      | nil => rfl
      | cons t ts => simp [h t rfl, pure, Parse.pure]
  rw [blockRest, bind_of_result_some hb, List.nil_append]

theorem blockRest_cons (declaration : Parse (Option Node)) (b : Token) (bound : List Token)
    {ts : List Token} (h : ¬ ∀ t ∈ ts.head?, t.kind = .kwEnd) :
    blockRest declaration (b :: bound) ts =
      (declaration >>= fun first => blockRest declaration bound >>= fun others =>
        pure (first.toList ++ others)) ts := by
  cases ts with
  | nil => simp at h
  | cons t ts =>
    have ht : t.kind ≠ .kwEnd := by simpa using h
    simp only [blockRest, blockBody, bind_assoc, lookahead_bind, if_neg ht, pure_bind]

theorem blockRest_agrees {declaration : Parse (Option Node)}
    (hd : FollowsMaybe n 1 declaration .declaration) (ts : List Token) :
    Agrees (fun trees => ∀ t ∈ trees, 1 + t.nesting ≤ n) AreStatements (blockRest declaration ts ts)
      (andThen (reading (.many (.rule .declaration)) ts) (reading (.skip .kwEnd))) := by
  refine row_agrees (e := fun ts => ∀ t ∈ ts.head?, t.kind = .kwEnd) hd (by simp) ?_ ?_ ?_
    (fun b bound _ => blockRest_cons declaration b bound) (Nat.le_refl _)
  · intro ts h
    cases ts with
    | nil => rfl
    | cons t ts =>
      simp [canStart, Pattern.startsWith, h t rfl, Rule.starters, statementStarters,
        expressionStarters]
  · intro ts h
    cases ts with
    | nil => simp at h
    | cons t ts => rw [reading_skip_cons, if_neg (by simpa using h)]
  · intro bound ts h
    rw [blockRest_of_end declaration bound h]
    refine ((mirrors_expect_skip rfl .block 0 n ts).map ?_).mono (fun _ _ h => h)
      fun _ _ _ => shallow_iff fun _ => rfl
    rintro _ _ rfl
    rfl

/-- A block leaves one tree, for its statements. -/
theorem reading_block (ts : List Token) : reading (.seq (.rule .block) (.skip .kwEnd)) ts =
    (andThen (reading (.many (.rule .declaration)) ts) (reading (.skip .kwEnd))).map
      fun (children, rest) => (Rule.block.tree children, rest) := by
  rw [reading_seq rfl, reading_rule, Rule.pattern]
  cases reading (.many (.rule .declaration)) ts with
  | error ts => rfl
  | ok parsed =>
    obtain ⟨children, mid⟩ := parsed
    simp only [andThen, Except.map]
    cases mid with
    | nil => rfl
    | cons t rest =>
      rw [reading_skip_cons]
      by_cases hk : t.kind = .kwEnd <;> simp [hk]

theorem block_mirrors (hd : DeeperFollows n deeper) (hw : r.weight place = 0) :
    Mirrors (Shallow r place n) (fun trees body => ∃ t, trees = [t] ∧ t.ast = .nodes body)
      (block deeper) (.seq (.rule .block) (.skip .kwEnd)) := by
  intro ts
  have hb : block deeper ts = blockRest deeper.declaration ts ts := lookahead_bind _ ts
  rw [hb, reading_block]
  refine .tree_of_ne (n := n) (by decide) ?_ ?_
  · simp [Shallow, nestingFrom, hw]
  · refine (blockRest_agrees hd.declaration ts).mono ?_
      fun _ _ _ => (shallow_iff fun _ => rfl).symm
    rintro children body rfl
    exact ⟨_, Rule.tree_eq_node rfl children, rfl⟩

theorem forStmt_mirrors (hd : DeeperFollows n deeper) (keyword : Token) :
    Mirrors (Shallow .forStmt 1 n)
      (fun children node => astAll (Rule.forStmt.tree (.leaf keyword :: children)) = [.node node])
      (forStmt deeper keyword)
      (.sequence (.keep [.identifier]) [.skip .kwIn, .rule .sum, .skip .doubleDot, .rule .sum,
        .skip .kwBegin, .rule .block, .skip .kwEnd]) := by
  refine Mirrors.seq rfl (mirrors_expect_keep rfl rfl n) ?_
  rintro _ name rfl
  refine Mirrors.seq rfl (mirrors_expect_skip rfl _ _ _) ?_
  rintro _ _ rfl
  refine Mirrors.seq rfl ((sum_follows hd).part rfl) ?_
  rintro _ start ⟨t, rfl, ht⟩
  refine Mirrors.seq rfl (mirrors_expect_skip rfl _ _ _) ?_
  rintro _ _ rfl
  refine Mirrors.seq rfl ((sum_follows hd).part rfl) ?_
  rintro _ finish ⟨u, rfl, hu⟩
  refine Mirrors.seq rfl (mirrors_expect_skip rfl _ _ _) ?_
  rintro _ _ rfl
  refine (block_mirrors hd rfl).map ?_
  rintro _ body ⟨b, rfl, hb⟩
  simp [Rule.tree, Rule.isTransparent, astAll, Tree.ast, Rule.build, combine, ht, hu, hb]

theorem whileStmt_mirrors (hd : DeeperFollows n deeper) :
    Mirrors (Shallow .whileStmt 0 n)
      (fun children node => astAll (Rule.whileStmt.tree children) = [.node node])
      (whileStmt deeper)
      (.sequence (.rule .expression) [.skip .kwBegin, .rule .block, .skip .kwEnd]) := by
  refine Mirrors.seq rfl ((expression_follows hd).part rfl) ?_
  rintro _ condition ⟨c, rfl, hc⟩
  refine Mirrors.seq rfl (mirrors_expect_skip rfl _ _ _) ?_
  rintro _ _ rfl
  refine (block_mirrors hd rfl).map ?_
  rintro _ body ⟨b, rfl, hb⟩
  simp [Rule.tree, Rule.isTransparent, astAll, Tree.ast, Rule.build, combine, hc, hb]

/-- What a statement that starts with a keyword is. -/
theorem reading_statement {t : Token} {s : Rule}
    (hs : s ∈ [Rule.ifStmt, .printStmt, .forStmt, .whileStmt]) (h : t.kind ∈ s.starters)
    (rest : List Token) :
    reading Rule.statement.pattern (t :: rest) = reading (.rule s) (t :: rest) := by
  simp only [Rule.pattern, Pattern.oneOf]
  rw [reading_either rfl, reading_either rfl, reading_either rfl, reading_either rfl]
  simp only [List.mem_cons, List.not_mem_nil, or_false] at hs
  obtain rfl | rfl | rfl | rfl := hs <;>
    simp_all [canStart, Pattern.startsWith, Rule.starters]

theorem reading_statement_eq_ite (ts : List Token) :
    reading Rule.statement.pattern ts =
      if canStart (.keep [.kwIf, .kwPrint, .kwFor, .kwWhile]) ts then
        reading Rule.statement.pattern ts
      else reading (.rule .exprStmt) ts := by
  split
  · rfl
  · next h =>
    simp only [Rule.pattern, Pattern.oneOf]
    rw [reading_either rfl, reading_either rfl, reading_either rfl, reading_either rfl]
    cases ts with
    | nil => rfl
    | cons t rest => simp_all [canStart, Pattern.startsWith, Rule.starters]

theorem statement_follows (hd : DeeperFollows n deeper) :
    Follows n 0 (statement deeper) .statement := by
  refine Follows.of_pattern (by decide) fun ts => ?_
  rw [reading_statement_eq_ite]
  refine accept_agrees (fun _ => rfl) ?_ ?_
  · rintro t rest rfl ht
    simp only [List.mem_cons, List.not_mem_nil, or_false] at ht
    obtain hk | hk | hk | hk := ht <;> simp only [hk]
    · rw [reading_statement (s := .ifStmt) (by decide) (by simp [hk, Rule.starters])]
      exact .alternative rfl rfl (by decide) (.skip rfl hk (ifStmt_mirrors hd) rest)
    · rw [reading_statement (s := .printStmt) (by decide) (by simp [hk, Rule.starters])]
      refine .alternative rfl rfl (by decide) (.skip rfl hk ?_ rest)
      exact exprStmt_mirrors hd rfl (fun _ => rfl) fun _ => rfl
    · rw [reading_statement (s := .forStmt) (by decide) (by simp [hk, Rule.starters])]
      refine .alternative rfl rfl (by decide) (.keep rfl rfl (by simp [hk]) ?_ rest)
      exact forStmt_mirrors hd t
    · rw [reading_statement (s := .whileStmt) (by decide) (by simp [hk, Rule.starters])]
      exact .alternative rfl rfl (by decide) (.skip rfl hk (whileStmt_mirrors hd) rest)
  · refine .alternative rfl rfl (by decide) ?_
    exact exprStmt_mirrors hd rfl (fun _ => rfl) (fun _ => rfl) ts

theorem declarationOrFail_follows (hd : DeeperFollows n deeper) :
    Follows n 0 (declarationOrFail deeper) .declaration := by
  refine Follows.of_pattern (by decide) fun ts => ?_
  rw [Rule.pattern, Pattern.oneOf, reading_either rfl]
  refine accept_agrees (fun _ => rfl) ?_ ?_
  · rintro t rest rfl ht
    refine .alternative rfl rfl (by decide) (.skip rfl (by simpa using ht) ?_ rest)
    exact varDecl_mirrors hd
  · refine ((statement_follows hd).part (r := .declaration) rfl ts).mono ?_ fun _ _ _ => Iff.rfl
    rintro _ node ⟨t, rfl, ht⟩
    simp [Rule.tree, Rule.isTransparent, astAll, ht]

/-- A failed declaration has been complained about. -/
theorem declaration_follows (hd : DeeperFollows n deeper) :
    FollowsMaybe n 0 (declaration deeper) .declaration := by
  intro ts
  have h := declarationOrFail_follows hd ts
  have hc : (declaration deeper ts).complaints = (declarationOrFail deeper ts).complaints := by
    unfold declaration
    dsimp only
    split <;> rfl
  generalize ho : declarationOrFail deeper ts = o, reading (.rule .declaration) ts = parsed at h hc
  cases h with
  | @clean node rest complaints trees value shallow blame =>
    have hn : declaration deeper ts = ⟨some (some node), rest, complaints⟩ := by
      simp only [declaration, ho]
    rw [hn]
    exact .clean ⟨node, rfl, value⟩ shallow blame
  | refused before after complaints blame error =>
    exact .refused before after (hc.trans complaints) blame error
  | tooDeep before after complaints blame error deep =>
    exact .tooDeep before after (hc.trans complaints) blame error deep

end

section
variable {α : Type} {n : Nat} {r : Rule} {means : List Tree → α → Prop}

/-- Where nothing may nest, nothing is parsed. -/
theorem fail_mirrors {e : SyntaxError} (he : e.isDepth = true) :
    Mirrors (fun trees => ∀ t ∈ trees, 1 + t.nesting ≤ 0) means (fail e) (.rule r) := by
  intro ts
  refine .tooDeep (c := ⟨ts, e⟩) [] [] rfl .nil he fun trees rest hr => ?_
  obtain ⟨tree, rfl⟩ := exists_tree_of_reading hr
  exact ⟨fun h => by simpa using h tree (List.mem_singleton_self tree), List.nil_prefix⟩

theorem Mirrors.deeper {f : Parse α}
    (h : Mirrors (fun trees => ∀ t ∈ trees, 0 + t.nesting ≤ n) means f (.rule r)) :
    Mirrors (fun trees => ∀ t ∈ trees, 1 + t.nesting ≤ n + 1) means f (.rule r) := by
  refine fun ts => (h ts).mono (fun _ _ h => h) fun trees _ _ => ?_
  exact forall₂_congr fun t _ => by omega

/-- The parsers follow the grammar at every depth. -/
theorem deeperWithin_follows (n : Nat) : DeeperFollows n (deeperWithin n) := by
  induction n with
  | zero =>
    exact ⟨fail_mirrors rfl, fail_mirrors rfl, fail_mirrors rfl, fail_mirrors rfl,
      fail_mirrors rfl⟩
  | succ n ih =>
    exact ⟨(expression_follows ih).deeper, (assignment_follows ih).deeper,
      (unary_follows ih).deeper, (statement_follows ih).deeper, (declaration_follows ih).deeper⟩

end

end LetLang.Parser
