import LetLang.Proofs.Parsing.Building
import LetLang.Proofs.Parsing.Relabeling
import LetLang.Proofs.Parsing.Statement

namespace LetLang.Parser

/-- Where a parser was stopped. Complaints about targets do not stop it. -/
def stops (complaints : List Complaint) : List (List Token) :=
  (complaints.filter (·.error != .invalidAssignment)).map (·.ahead)

@[simp] theorem stops_append (cs ds : List Complaint) :
    stops (cs ++ ds) = stops cs ++ stops ds := by
  simp [stops]

section
variable {α β : Type} {k : Nat} {f : Parse α} {g : α → Parse β} {ts : List Token}

theorem bind_of_none (h : (f ts).result = none) :
    (f >>= g) ts = ⟨none, (f ts).rest, (f ts).complaints⟩ := by
  simp only [Bind.bind, Parse.bind, h]

theorem bind_of_some {a : α} (h : (f ts).result = some a) :
    (f >>= g) ts = ⟨(g a (f ts).rest).result, (g a (f ts).rest).rest,
      (f ts).complaints ++ (g a (f ts).rest).complaints⟩ := by
  simp only [Bind.bind, Parse.bind, h]

/-- Tokens were taken from the front, so many of them at least in a success. Complaints are about
tokens of the text. One of them stops a failure, at the tokens that are left, and none a success. -/
structure Steps (k : Nat) (ts : List Token) (o : Outcome α) : Prop where
  suffix : o.rest <:+ ts
  taken : o.result.isSome → o.rest.length + k ≤ ts.length
  about : ∀ c ∈ o.complaints, c.ahead <:+ ts
  stops : stops o.complaints = if o.result.isSome then [] else [o.rest]

def Steady (k : Nat) (f : Parse α) : Prop := ∀ ts, Steps k ts (f ts)

theorem Steady.weaken (h : Steady k f) : Steady 0 f := by
  refine fun ts => ⟨(h ts).suffix, fun hr => ?_, (h ts).about, (h ts).stops⟩
  have := (h ts).taken hr
  omega

theorem steady_pure (a : α) : Steady 0 (pure a : Parse α) :=
  fun ts => ⟨List.suffix_refl ts, fun _ => Nat.le_refl ts.length, nofun, rfl⟩

theorem steady_fail {e : SyntaxError} (he : e ≠ .invalidAssignment) (k : Nat) :
    Steady k (fail e : Parse α) := by
  refine fun ts => ⟨List.suffix_refl ts, nofun, ?_, ?_⟩
  · simp [fail]
  · simp [fail, Parser.stops, he]

theorem steady_lookahead : Steady 0 lookahead :=
  fun ts => ⟨List.suffix_refl ts, fun _ => Nat.le_refl ts.length, nofun, rfl⟩

theorem Steady.bind (hf : Steady k f) (hg : ∀ a, Steady 0 (g a)) : Steady k (f >>= g) := by
  intro ts
  obtain ⟨hs, ht, ha, he⟩ := hf ts
  cases hr : (f ts).result with
  | none =>
    rw [bind_of_none hr]
    rw [hr] at he
    exact ⟨hs, nofun, ha, he⟩
  | some a =>
    obtain ⟨hs', ht', ha', he'⟩ := hg a (f ts).rest
    rw [bind_of_some hr]
    rw [hr] at ht he
    refine ⟨hs'.trans hs, fun h => ?_, ?_, ?_⟩
    · have := ht rfl
      have := ht' h
      dsimp only
      omega
    · exact List.forall_mem_append.2 ⟨ha, fun c hc => (ha' c hc).trans hs⟩
    · rw [stops_append, he, he']
      rfl

/-- The next token is of one of the kinds or not. -/
theorem head_cases (kinds : List TokenKind) (ts : List Token) :
    (∀ t ∈ ts.head?, t.kind ∉ kinds) ∨ ∃ t rest, ts = t :: rest ∧ t.kind ∈ kinds := by
  cases ts with
  | nil => exact .inl nofun
  | cons t rest =>
    by_cases h : t.kind ∈ kinds
    · exact .inr ⟨t, rest, rfl, h⟩
    · exact .inl (by simpa using h)

theorem Steps.cons {o : Outcome α} {t : Token} (h : Steps 0 ts o) (hk : k ≤ 1) :
    Steps k (t :: ts) o := by
  have hsuffix := List.suffix_cons t ts
  refine ⟨h.suffix.trans hsuffix, fun hr => ?_, fun c hc => (h.about c hc).trans hsuffix, h.stops⟩
  have := h.taken hr
  rw [List.length_cons]
  omega

theorem Steady.accept {kinds : List TokenKind} {g : Option Token → Parse β}
    (hn : Steady k (g none)) (hs : ∀ t, t.kind ∈ kinds → Steady 0 (g (some t))) (hk : k ≤ 1) :
    Steady k (accept kinds >>= g) := by
  intro ts
  obtain h | ⟨t, rest, rfl, h⟩ := head_cases kinds ts
  · rw [accept_bind_of_not_mem h]
    exact hn ts
  · rw [accept_bind_of_mem h]
    exact (hs t h rest).cons hk

theorem steady_accept (kinds : List TokenKind) : Steady 0 (accept kinds) := by
  have h : Steady 0 (accept kinds >>= pure) :=
    Steady.accept (steady_pure none) (fun t _ => steady_pure (some t)) (Nat.zero_le 1)
  rwa [bind_pure] at h

theorem steady_expect (kind : TokenKind) {e : SyntaxError} (he : e ≠ .invalidAssignment) :
    Steady 1 (expect kind e) :=
  Steady.accept (steady_fail he 1) (fun t _ => steady_pure t) (Nat.le_refl 1)

/-- A token that must be there, and something that is made without more tokens. -/
theorem steady_expect_pure (kind : TokenKind) {e : SyntaxError} (he : e ≠ .invalidAssignment)
    (a : α) : Steady 0 (expect kind e >>= fun _ => pure a) :=
  (steady_expect kind he).weaken.bind fun _ => steady_pure a

theorem steady_orAbsent (kind : TokenKind) {f : Parse Node} (h : Steady 0 f) :
    Steady 0 (orAbsent kind f) :=
  Steady.accept (steady_pure _) (fun _ _ => h) (Nat.zero_le 1)

end

section
variable {operators : List TokenKind} {build : Node → Token → Node → Node} {operand : Parse Node}

theorem chainFrom_steady (ho : Steady 1 operand) (bound : List Token) (left : Node) :
    Steady 0 (chainFrom operators build operand bound left) := by
  induction bound generalizing left with
  | nil => exact steady_pure left
  | cons b bound ih =>
    refine Steady.accept (steady_pure left) (fun o _ => ?_) (Nat.zero_le 1)
    exact ho.weaken.bind fun right => ih (build left o right)

theorem chain_steady (ho : Steady 1 operand) : Steady 1 (chain operators build operand) :=
  ho.bind fun first => steady_lookahead.bind fun bound => chainFrom_steady ho bound first

end

/-- The parsers of expressions one level deeper. -/
structure DeeperSteady (deeper : Deeper) : Prop where
  expression : Steady 0 deeper.expression
  assignment : Steady 0 deeper.assignment
  unary : Steady 0 deeper.unary

section
variable {deeper : Deeper} (hd : DeeperSteady deeper)
include hd

theorem primary_steady : Steady 1 (primary deeper) := by
  refine Steady.accept (steady_fail (by decide) 1) (fun t _ => ?_) (Nat.le_refl 1)
  dsimp only
  split
  · exact steady_pure _
  · exact steady_pure _
  · exact steady_pure _
  · exact hd.expression.bind fun inner => steady_expect_pure .rightParen (by decide) _
  · exact steady_pure _

theorem exponent_steady : Steady 1 (exponent deeper) := by
  refine (primary_steady hd).bind fun base => ?_
  refine Steady.accept (steady_pure base) (fun o _ => ?_) (Nat.zero_le 1)
  exact hd.unary.bind fun power => steady_pure _

theorem unary_steady : Steady 1 (unary deeper) := by
  refine Steady.accept (exponent_steady hd) (fun o _ => ?_) (Nat.le_refl 1)
  exact hd.unary.bind fun operand => steady_pure _

theorem sum_steady : Steady 1 (sum deeper) := chain_steady (chain_steady (unary_steady hd))

theorem disjunction_steady : Steady 1 (disjunction deeper) :=
  chain_steady (chain_steady (chain_steady (chain_steady (sum_steady hd))))

theorem assignment_steady : Steady 1 (assignment deeper) := by
  refine (disjunction_steady hd).bind fun target ts => ?_
  rw [lookahead_bind]
  obtain h | ⟨t, rest, rfl, h⟩ := head_cases [.equal] ts
  · rw [accept_bind_of_not_mem h]
    exact steady_pure target ts
  · -- what is complained about after the value stands before it
    obtain ⟨hsuffix, htaken, habout, hstops⟩ := (hd.assignment rest).cons (t := t) (Nat.zero_le 1)
    rw [accept_bind_of_mem h]
    dsimp only
    cases hr : (deeper.assignment rest).result with
    | none =>
      rw [bind_of_none hr]
      rw [hr] at hstops
      exact ⟨hsuffix, nofun, habout, hstops⟩
    | some value =>
      rw [bind_of_some hr]
      rw [hr] at htaken hstops
      split
      · refine ⟨hsuffix, fun _ => htaken rfl, ?_, ?_⟩
        · exact List.forall_mem_append.2 ⟨habout, nofun⟩
        · rw [stops_append, hstops]
          rfl
      · refine ⟨hsuffix, fun _ => htaken rfl, ?_, ?_⟩
        · refine List.forall_mem_append.2 ⟨habout, ?_⟩
          exact List.forall_mem_singleton.2 (List.suffix_refl (t :: rest))
        · rw [stops_append, hstops]
          rfl

/-- An expression takes tokens, or fails with one error at the tokens that it leaves. -/
theorem expression_steady : Steady 1 (expression deeper) := chain_steady (assignment_steady hd)

theorem varDecl_steady : Steady 1 (varDecl deeper) := by
  rw [varDecl_eq]
  refine (steady_expect .identifier (by decide)).bind fun name => ?_
  refine (steady_orAbsent .equal (expression_steady hd).weaken).bind fun initializer => ?_
  exact steady_expect_pure .semicolon (by decide) _

theorem exprStmt_steady (build : Node → Node) : Steady 1 (exprStmt deeper build) :=
  (expression_steady hd).bind fun e => steady_expect_pure .semicolon (by decide) (build e)

end

theorem deeperWithin_steady (n : Nat) : DeeperSteady (deeperWithin n) := by
  induction n with
  | zero =>
    exact ⟨steady_fail (by decide) 0, steady_fail (by decide) 0, steady_fail (by decide) 0⟩
  | succ n ih =>
    exact ⟨(expression_steady ih).weaken, (assignment_steady ih).weaken, (unary_steady ih).weaken⟩

theorem expression_within_steady (n : Nat) : Steady 1 (expression (deeperWithin n)) :=
  expression_steady (deeperWithin_steady n)

theorem length_resume_lt {ts : List Token} (h : ts ≠ []) : (resume ts).length < ts.length := by
  induction ts with
  | nil => exact absurd rfl h
  | cons t rest ih =>
    cases rest with
    | nil =>
      rw [resume]
      split <;> simp
    | cons next rest =>
      rw [resume_cons_cons]
      have := ih (List.cons_ne_nil next rest)
      split
      · simp
      split
      · simp
      · exact Nat.lt_succ_of_lt this

theorem Builds.length_rest_le {α : Type} {goesWith : List Token → α → Prop} {f : Parse α}
    (h : Builds goesWith f) (ts : List Token) : (f ts).rest.length ≤ ts.length := by
  obtain ⟨used, hu, -⟩ := h ts
  have := congrArg List.length hu
  rw [List.length_append] at this
  omega

/-- In a success a token was taken. -/
def Takes {α : Type} (f : Parse α) : Prop :=
  ∀ ts, (f ts).result.isSome → (f ts).rest.length < ts.length

theorem Steady.takes {α : Type} {f : Parse α} (h : Steady 1 f) : Takes f := fun ts => (h ts).taken

theorem Takes.accept {α : Type} {kinds : List TokenKind} {g : Option Token → Parse α}
    (hn : Takes (g none))
    (hs : ∀ t, t.kind ∈ kinds → ∃ goesWith : List Token → α → Prop, Builds goesWith (g (some t))) :
    Takes (accept kinds >>= g) := by
  intro ts
  obtain h | ⟨t, rest, rfl, h⟩ := head_cases kinds ts
  · rw [accept_bind_of_not_mem h]
    exact hn ts
  · obtain ⟨goesWith, hb⟩ := hs t h
    rw [accept_bind_of_mem h]
    exact fun _ => Nat.lt_succ_of_le (hb.length_rest_le rest)

section
variable (n : Nat)

theorem takes_statement : Takes (statement (deeperWithin n)) := by
  have hd := deeperWithin_builds n
  refine Takes.accept (exprStmt_steady (deeperWithin_steady n) _).takes fun t _ => ?_
  dsimp only
  split
  · exact ⟨_, builds_ifStmt hd⟩
  · exact ⟨_, builds_exprStmt hd fun _ _ => .printStmt⟩
  · next hk => exact ⟨_, builds_forStmt hd hk⟩
  · exact ⟨_, builds_whileStmt hd⟩

/-- A declaration that does not fail takes a token: the keyword, or what an expression takes. -/
theorem takes_declarationOrFail : Takes (declarationOrFail (deeperWithin n)) :=
  Takes.accept (takes_statement n) fun _ _ => ⟨_, builds_varDecl (deeperWithin_builds n)⟩

/-- Something is taken for a declaration, or skipped. -/
theorem length_rest_declaration_lt {ts : List Token} (h : ts ≠ []) :
    (declaration (deeperWithin n) ts).rest.length < ts.length := by
  have hlt := takes_declarationOrFail n ts
  have hle := (builds_declarationOrFail (deeperWithin_builds n)).length_rest_le ts
  unfold declaration
  dsimp only
  cases hr : (declarationOrFail (deeperWithin n) ts).result with
  | some node =>
    rw [hr] at hlt
    exact hlt rfl
  | none =>
    by_cases hn : (declarationOrFail (deeperWithin n) ts).rest = []
    · rw [hn]
      exact List.length_pos_iff.2 h
    · exact Nat.lt_of_lt_of_le (length_resume_lt hn) hle

end

section
variable {declaration : Parse (Option Node)}

theorem declarations_of_length_le
    (hd : ∀ ts, ts ≠ [] → (declaration ts).rest.length < ts.length) {bound bound' ts : List Token}
    (h : ts.length ≤ bound.length) (h' : ts.length ≤ bound'.length) :
    declarations declaration bound ts = declarations declaration bound' ts := by
  -- On the first bound: a declaration takes a token at least, so a shorter bound is enough for the
  -- others, on both sides.
  induction bound generalizing bound' ts with
  | nil =>
    obtain rfl : ts = [] := List.length_eq_zero_iff.1 (Nat.le_zero.1 h)
    cases bound' <;> rfl
  | cons b bound ih =>
    cases ts with
    | nil => cases bound' <;> rfl
    | cons t ts =>
      cases bound' with
      | nil => simp at h'
      | cons b' bound' =>
        have hlt := hd (t :: ts) (List.cons_ne_nil t ts)
        simp only [List.length_cons] at h h' hlt
        rw [declarations, declarations,
          ih (by omega : (declaration (t :: ts)).rest.length ≤ bound.length)
            (by omega : (declaration (t :: ts)).rest.length ≤ bound'.length)]

theorem blockBody_of_length_le
    (hd : ∀ ts, ts ≠ [] → (declaration ts).result.isSome → (declaration ts).rest.length < ts.length)
    {bound bound' ts : List Token} (h : ts.length ≤ bound.length) (h' : ts.length ≤ bound'.length) :
    blockBody declaration bound ts = blockBody declaration bound' ts := by
  induction bound generalizing bound' ts with
  | nil =>
    obtain rfl : ts = [] := List.length_eq_zero_iff.1 (Nat.le_zero.1 h)
    cases bound' <;> rfl
  | cons b bound ih =>
    cases ts with
    | nil => cases bound' <;> rfl
    | cons t ts =>
      cases bound' with
      | nil => simp at h'
      | cons b' bound' =>
        rw [blockBody, blockBody, lookahead_bind, lookahead_bind]
        dsimp only
        split
        · rfl
        · cases hr : (declaration (t :: ts)).result with
          | none => rw [bind_of_none hr, bind_of_none hr]
          | some first =>
            have hlt := hd (t :: ts) (List.cons_ne_nil t ts) (by rw [hr]; rfl)
            simp only [List.length_cons] at h h' hlt
            rw [bind_of_some hr, bind_of_some hr, bind_pure_eq, bind_pure_eq,
              ih (by omega : (declaration (t :: ts)).rest.length ≤ bound.length)
                (by omega : (declaration (t :: ts)).rest.length ≤ bound'.length)]

end

theorem chainFrom_of_length_le {operators : List TokenKind} {build : Node → Token → Node → Node}
    {operand : Parse Node} (ho : Steady 0 operand) {bound bound' ts : List Token}
    (h : ts.length ≤ bound.length) (h' : ts.length ≤ bound'.length) (left : Node) :
    chainFrom operators build operand bound left ts =
      chainFrom operators build operand bound' left ts := by
  -- On the first bound: every operator takes a token, and so leaves a shorter list for both.
  induction bound generalizing bound' ts left with
  | nil =>
    obtain rfl : ts = [] := List.length_eq_zero_iff.1 (Nat.le_zero.1 h)
    cases bound' <;> rfl
  | cons b bound ih =>
    cases bound' with
    | nil =>
      obtain rfl : ts = [] := List.length_eq_zero_iff.1 (Nat.le_zero.1 h')
      rfl
    | cons b' bound' =>
      rw [chainFrom, chainFrom]
      obtain hk | ⟨t, rest, rfl, hk⟩ := head_cases operators ts
      · rw [accept_bind_of_not_mem hk, accept_bind_of_not_mem hk]
      · rw [accept_bind_of_mem hk, accept_bind_of_mem hk]
        dsimp only
        cases hr : (operand rest).result with
        | none => rw [bind_of_none hr, bind_of_none hr]
        | some right =>
          have hle := (ho rest).suffix.length_le
          simp only [List.length_cons] at h h'
          rw [bind_of_some hr, bind_of_some hr,
            ih (by omega : (operand rest).rest.length ≤ bound.length)
              (by omega : (operand rest).rest.length ≤ bound'.length)]

/-- Operators and operands are taken for as long as there is an operator. -/
theorem chainFrom_self {operators : List TokenKind} {build : Node → Token → Node → Node}
    {operand : Parse Node} (ho : Steady 0 operand) (left : Node) (ts : List Token) :
    chainFrom operators build operand ts left ts = (accept operators >>= fun
      | none => pure left
      | some operator => operand >>= fun right => lookahead >>= fun bound =>
        chainFrom operators build operand bound (build left operator right)) ts := by
  obtain h | ⟨t, rest, rfl, h⟩ := head_cases operators ts
  · rw [accept_bind_of_not_mem h]
    cases ts with
    | nil => rfl
    | cons t rest => rw [chainFrom, accept_bind_of_not_mem h]
  · rw [chainFrom, accept_bind_of_mem h, accept_bind_of_mem h]
    dsimp only
    cases hr : (operand rest).result with
    | none => rw [bind_of_none hr, bind_of_none hr]
    | some right =>
      rw [bind_of_some hr, bind_of_some hr, lookahead_bind,
        chainFrom_of_length_le ho (ho rest).suffix.length_le (Nat.le_refl _)]

/-- No loop is ended by its bound: the longest texts need no more than one pass for each token. -/
structure BoundsSuffice (deeper : Deeper) : Prop where
  program : ∀ {bound ts : List Token}, ts.length ≤ bound.length →
    declarations (declaration deeper) bound ts = declarations (declaration deeper) ts ts
  block : ∀ {bound ts : List Token}, ts.length ≤ bound.length →
    blockBody deeper.declaration bound ts = blockBody deeper.declaration ts ts
  chain : ∀ operators build, ∀ operand ∈ [unary deeper, product deeper, sum deeper,
      comparison deeper, equality deeper, conjunction deeper, assignment deeper],
    ∀ left {bound ts : List Token}, ts.length ≤ bound.length →
      chainFrom operators build operand bound left ts = chainFrom operators build operand ts left ts

/-- No loop of the parser is ended by its bound. -/
theorem boundsSuffice (n : Nat) : BoundsSuffice (deeperWithin n) where
  program h :=
    declarations_of_length_le (fun _ => length_rest_declaration_lt n) h (Nat.le_refl _)
  block h := by
    refine blockBody_of_length_le (fun ts hn hr => ?_) h (Nat.le_refl _)
    cases n with
    | zero => cases hr
    | succ n => exact length_rest_declaration_lt n hn
  chain operators build operand ho left _ _ h := by
    have hd := deeperWithin_steady n
    have hsum := sum_steady hd
    have hs : Steady 0 operand := by
      simp only [List.mem_cons, List.not_mem_nil, or_false] at ho
      obtain rfl | rfl | rfl | rfl | rfl | rfl | rfl := ho
      · exact (unary_steady hd).weaken
      · exact (chain_steady (unary_steady hd)).weaken
      · exact hsum.weaken
      · exact (chain_steady hsum).weaken
      · exact (chain_steady (chain_steady hsum)).weaken
      · exact (chain_steady (chain_steady (chain_steady hsum))).weaken
      · exact (assignment_steady hd).weaken
    exact chainFrom_of_length_le hs h (Nat.le_refl _) left

/-- A program is its first declaration and a program. -/
theorem program_of_ne_nil {ts : List Token} (h : ts ≠ []) :
    program ts =
      ((declaration (deeperWithin maxNesting) ts).result.join.toList ++
          (program (declaration (deeperWithin maxNesting) ts).rest).1,
        (declaration (deeperWithin maxNesting) ts).complaints ++
          (program (declaration (deeperWithin maxNesting) ts).rest).2) := by
  have hlt := length_rest_declaration_lt maxNesting h
  obtain ⟨t, ts, rfl⟩ := List.exists_cons_of_ne_nil h
  rw [program, declarations, (boundsSuffice maxNesting).program (Nat.le_of_lt_succ hlt)]
  rfl

end LetLang.Parser
