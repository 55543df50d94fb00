import LetLang.Proofs.Parsing.Append
import LetLang.Proofs.Parsing.Locality

namespace LetLang.Parser

/-- The token neither ends a statement nor starts one. -/
def IsInner (t : Token) : Prop := t.kind ≠ .semicolon ∧ startsStatement t = false

instance : DecidablePred IsInner := fun t =>
  inferInstanceAs (Decidable (t.kind ≠ .semicolon ∧ startsStatement t = false))

theorem resume_of_semicolon {s : Token} (hs : s.kind = .semicolon) (rest : List Token) :
    resume (s :: rest) = rest := by
  cases rest with
  | nil => simp [resume]
  | cons next rest => rw [resume_cons_cons, if_pos hs]

theorem resume_cons {t : Token} {ts : List Token} (ht : t.kind ≠ .semicolon)
    (h : ∀ u ∈ ts.head?, startsStatement u = false) : resume (t :: ts) = resume ts := by
  cases ts with
  | nil => simp [resume]
  | cons next rest => rw [resume_cons_cons, if_neg ht, h next rfl, if_neg Bool.false_ne_true]

section
variable {t s : Token} {inner : List Token} (ht : t.kind ≠ .semicolon)
  (hi : ∀ u ∈ inner, IsInner u) (hs : s.kind = .semicolon)
include hi hs

theorem not_startsStatement_head (rest : List Token) :
    ∀ u ∈ (inner ++ s :: rest).head?, startsStatement u = false := by
  cases inner with
  | nil =>
    rintro _ ⟨⟩
    simp [startsStatement, hs]
  | cons v inner =>
    rintro _ ⟨⟩
    exact (hi v List.mem_cons_self).2

/-- Wherever the parser stopped in a statement, it goes on after the semicolon. -/
theorem resume_inner (rest : List Token) : resume (inner ++ s :: rest) = rest := by
  induction inner with
  | nil => exact resume_of_semicolon hs rest
  | cons t inner ih =>
    obtain ⟨ht, hi⟩ := List.forall_mem_cons.1 hi
    rw [List.cons_append, resume_cons ht.1 (not_startsStatement_head hi hs rest), ih hi]

include ht in
/-- The first token is skipped even if it starts a statement. -/
theorem resume_cons_inner (rest : List Token) : resume (t :: (inner ++ s :: rest)) = rest := by
  rw [resume_cons ht (not_startsStatement_head hi hs rest), resume_inner hi hs]

end

section
variable {α β : Type} {s : Token} {rest : List Token}

/-- What came of tokens that a semicolon follows: all of them are taken with the semicolon, or the
parser failed before it. It complains about them or the semicolon. -/
structure StaysBefore (m : List Token) (s : Token) (rest : List Token) (o : Outcome α) : Prop where
  taken : o.result.isSome → o.rest = rest
  failed : o.result = none → ∃ m', m' <:+ m ∧ o.rest = m' ++ s :: rest
  about : ∀ c ∈ o.complaints, ∃ m', m' <:+ m ∧ c.ahead = m' ++ s :: rest

theorem StaysBefore.mono {m m' : List Token} {o : Outcome α} (h : StaysBefore m' s rest o)
    (hm : m' <:+ m) : StaysBefore m s rest o := by
  refine ⟨h.taken, fun hn => ?_, fun c hc => ?_⟩
  · obtain ⟨m'', hm'', hr⟩ := h.failed hn
    exact ⟨m'', hm''.trans hm, hr⟩
  · obtain ⟨m'', hm'', ha⟩ := h.about c hc
    exact ⟨m'', hm''.trans hm, ha⟩

theorem StaysBefore.fail (m : List Token) (s : Token) (rest : List Token) (e : SyntaxError) :
    StaysBefore m s rest (fail e (m ++ s :: rest) : Outcome α) := by
  refine ⟨nofun, fun _ => ⟨m, List.suffix_refl m, rfl⟩, fun c hc => ?_⟩
  obtain rfl := List.mem_singleton.1 hc
  exact ⟨m, List.suffix_refl m, rfl⟩

/-- After a parser that does not look behind the end of an expression. -/
theorem StaysBefore.bind {f : Parse α} {k : Nat} (hl : Local f) (hf : Steady k f)
    (hs : s.kind = .semicolon) {m : List Token} {g : α → Parse β}
    (hg : ∀ a m', m' <:+ m → StaysBefore m' s rest (g a (m' ++ s :: rest))) :
    StaysBefore m s rest ((f >>= g) (m ++ s :: rest)) := by
  have hends := endsExpression_semicolon hs rest
  obtain ⟨hsuffix, -, habout, -⟩ := hf m
  -- The first parser is local, so it does what it does when the text ends at the semicolon.
  have hcomplaints : ∀ c ∈ (f (m ++ s :: rest)).complaints,
      ∃ m', m' <:+ m ∧ c.ahead = m' ++ s :: rest := by
    rw [hl m _ hends]
    intro c hc
    obtain ⟨c', hc', rfl⟩ := List.mem_map.1 hc
    exact ⟨c'.ahead, habout c' hc', rfl⟩
  have hrest : (f (m ++ s :: rest)).rest = (f m).rest ++ s :: rest := by
    rw [hl m _ hends]
    rfl
  cases hr : (f (m ++ s :: rest)).result with
  | none =>
    rw [bind_of_none hr]
    exact ⟨nofun, fun _ => ⟨_, hsuffix, hrest⟩, hcomplaints⟩
  | some a =>
    obtain ⟨htaken, hfailed, habout'⟩ := (hg a _ hsuffix).mono hsuffix
    rw [bind_of_some hr, hrest]
    exact ⟨htaken, hfailed, List.forall_mem_append.2 ⟨hcomplaints, habout'⟩⟩

theorem staysBefore_semicolon {m : List Token} (hm : ∀ t ∈ m, t.kind ≠ .semicolon)
    (hs : s.kind = .semicolon) (e : SyntaxError) (b : β) :
    StaysBefore m s rest ((expect .semicolon e >>= fun _ => pure b) (m ++ s :: rest)) := by
  rw [bind_pure_eq]
  cases m with
  | nil =>
    rw [List.nil_append, expect_of_eq hs]
    exact ⟨fun _ => rfl, nofun, nofun⟩
  | cons t m =>
    rw [expect_of_ne (by simpa using hm t List.mem_cons_self)]
    exact (StaysBefore.fail (t :: m) s rest e :)

variable {n : Nat} {m : List Token} (hm : ∀ t ∈ m, t.kind ≠ .semicolon)
  (hs : s.kind = .semicolon)
include hm hs

theorem staysBefore_exprStmt (build : Node → Node) :
    StaysBefore m s rest (exprStmt (deeperWithin n) build (m ++ s :: rest)) := by
  refine StaysBefore.bind (expression_within_local n) (expression_within_steady n) hs
    fun e m' h => ?_
  exact staysBefore_semicolon (fun t ht => hm t (h.subset ht)) hs _ _

theorem staysBefore_varDecl :
    StaysBefore m s rest (varDecl (deeperWithin n) (m ++ s :: rest)) := by
  rw [varDecl_eq]
  refine StaysBefore.bind (local_expect (by decide) _) (steady_expect _ (by decide)) hs
    fun name m₁ h₁ => ?_
  refine StaysBefore.bind (local_orAbsent (by decide) (expression_within_local n))
    (steady_orAbsent _ (expression_within_steady n).weaken) hs fun initializer m₂ h₂ => ?_
  exact staysBefore_semicolon (fun t ht => hm t (h₁.subset (h₂.subset ht))) hs _ _

end

section
variable {α β : Type} {s : Token} {rest m : List Token}

/-- After a token that may be any but a semicolon. -/
theorem StaysBefore.expect {kind : TokenKind} (hk : kind ≠ .semicolon) (hs : s.kind = .semicolon)
    {e : SyntaxError} {g : Token → Parse β}
    (hg : ∀ t m', m = t :: m' → StaysBefore m' s rest (g t (m' ++ s :: rest))) :
    StaysBefore m s rest ((expect kind e >>= g) (m ++ s :: rest)) := by
  by_cases h : ∀ t ∈ (m ++ s :: rest).head?, t.kind ≠ kind
  · have he := expect_of_ne h e
    rw [bind_of_none (by rw [he]), he]
    exact (StaysBefore.fail m s rest e :)
  · cases m with
    | nil => simp [hs, Ne.symm hk] at h
    | cons t m' =>
      have ht : t.kind = kind := by simpa using h
      rw [List.cons_append, bind_of_result_some (expect_of_eq ht e (m' ++ s :: rest))]
      exact (hg t m' rfl).mono (List.suffix_cons t m')

/-- What comes after the semicolon takes nothing more. -/
theorem StaysBefore.finish {f : Parse α} {g : α → Parse β} {ts : List Token}
    (hf : StaysBefore m s rest (f ts)) {k : α → β} (hg : ∀ a, g a rest = ⟨some (k a), rest, []⟩) :
    StaysBefore m s rest ((f >>= g) ts) := by
  cases hr : (f ts).result with
  | none =>
    rw [bind_of_none hr]
    exact ⟨nofun, fun _ => hf.failed hr, hf.about⟩
  | some a =>
    have ht := hf.taken (by rw [hr]; rfl)
    rw [bind_of_some hr, ht, hg a]
    exact ⟨fun _ => rfl, nofun, List.forall_mem_append.2 ⟨hf.about, nofun⟩⟩

theorem statement_eq_exprStmt (deeper : Deeper) {ts : List Token}
    (h : ∀ u ∈ ts.head?, startsStatement u = false) :
    statement deeper ts = exprStmt deeper .exprStmt ts := by
  have hkinds : ∀ k ∈ [TokenKind.kwIf, .kwPrint, .kwFor, .kwWhile],
      k ∈ [TokenKind.kwLet, .kwPrint, .kwIf, .kwFor, .kwWhile] := by decide
  rw [statement, accept_bind_of_not_mem]
  exact fun t ht hk => of_decide_eq_false (h t ht) (hkinds _ hk)

theorem declarationOrFail_eq_statement (deeper : Deeper) {ts : List Token}
    (h : ∀ t ∈ ts.head?, t.kind ≠ .kwLet) : declarationOrFail deeper ts = statement deeper ts := by
  rw [declarationOrFail, accept_bind_of_not_mem (by simpa using h)]

variable {n : Nat}

theorem staysBefore_statement (hi : ∀ t ∈ m, IsInner t) (hs : s.kind = .semicolon) :
    StaysBefore m s rest ((deeperWithin n).statement (m ++ s :: rest)) := by
  cases n with
  | zero => exact StaysBefore.fail m s rest _
  | succ n =>
    show StaysBefore m s rest (statement (deeperWithin n) (m ++ s :: rest))
    rw [statement_eq_exprStmt _ (not_startsStatement_head hi hs rest)]
    exact staysBefore_exprStmt (fun t ht => (hi t ht).1) hs _

/-- The branch of a condition ends at the semicolon, and no `else` comes after it. -/
theorem staysBefore_ifStmt (hi : ∀ t ∈ m, IsInner t) (hs : s.kind = .semicolon)
    (hr : ∀ t ∈ rest.head?, t.kind ≠ .kwElse) :
    StaysBefore m s rest (ifStmt (deeperWithin n) (m ++ s :: rest)) := by
  rw [ifStmt_eq]
  refine StaysBefore.bind (expression_within_local n) (expression_within_steady n) hs
    fun c m₁ h₁ => ?_
  refine StaysBefore.expect (by decide) hs fun t m₂ h₂ => ?_
  have hi₂ : ∀ t ∈ m₂, IsInner t := fun t ht =>
    hi t (h₁.subset (by rw [h₂]; exact List.mem_cons_of_mem _ ht))
  refine (staysBefore_statement hi₂ hs).finish (k := fun branch => .ifStmt c branch .absent)
    fun branch => ?_
  rw [orAbsent, bind_assoc, accept_bind_of_not_mem (by simpa using hr)]
  rfl

/-- The tokens of a statement without a body, well-formed or not: no semicolon, no loop, and a
keyword that starts a statement in front only. -/
structure IsSimpleText (m : List Token) : Prop where
  kinds : ∀ t ∈ m, t.kind ∉ [.semicolon, .eof, .kwFor, .kwWhile]
  first : ∀ t ∈ m.head?, t.kind ≠ .kwElse
  others : ∀ t ∈ m.tail, t.kind ∉ [.kwLet, .kwPrint, .kwIf]

theorem IsSimpleText.isInner (h : IsSimpleText m) : ∀ t ∈ m.tail, IsInner t := by
  intro t ht
  have hk := h.kinds t (List.mem_of_mem_tail ht)
  have ho := h.others t ht
  simp only [List.mem_cons, List.not_mem_nil, or_false, not_or] at hk ho
  exact ⟨hk.1, by simp [startsStatement, hk, ho]⟩

theorem staysBefore_declarationOrFail (h : IsSimpleText m) (hs : s.kind = .semicolon)
    (hr : ∀ t ∈ rest.head?, t.kind ≠ .kwElse) :
    StaysBefore m s rest (declarationOrFail (deeperWithin n) (m ++ s :: rest)) := by
  have hm : ∀ t ∈ m, t.kind ≠ .semicolon := by
    intro t ht hk
    exact h.kinds t ht (by simp [hk])
  have hi := h.isInner
  -- What starts no statement is parsed as an expression; of the keywords that start one, those with
  -- a body are excluded.
  by_cases hstart : ∀ t ∈ (m ++ s :: rest).head?, startsStatement t = false
  · have hlet : ∀ t ∈ (m ++ s :: rest).head?, t.kind ≠ .kwLet := by
      intro t ht hk
      simpa [startsStatement, hk] using hstart t ht
    rw [declarationOrFail_eq_statement _ hlet, statement_eq_exprStmt _ hstart]
    exact staysBefore_exprStmt hm hs _
  · cases m with
    | nil => simp [startsStatement, hs] at hstart
    | cons t m =>
      have hk : t.kind = .kwLet ∨ t.kind = .kwPrint ∨ t.kind = .kwIf := by
        have hk := h.kinds t List.mem_cons_self
        have hstarts : startsStatement t = true := by simpa using hstart
        have hmem := of_decide_eq_true hstarts
        simp only [List.mem_cons, List.not_mem_nil, or_false, not_or] at hk hmem
        simpa only [hk, or_false] using hmem
      have hsuffix := List.suffix_cons t m
      have hm' : ∀ u ∈ m, u.kind ≠ .semicolon := fun u hu => hm u (List.mem_cons_of_mem t hu)
      obtain hk | hk | hk := hk
      · rw [List.cons_append, declarationOrFail, accept_bind_of_mem (by simp [hk])]
        exact (staysBefore_varDecl hm' hs).mono hsuffix
      · rw [List.cons_append, declarationOrFail_eq_statement _ (by simp [hk]), statement,
          accept_bind_of_mem (by simp [hk])]
        simp only [hk]
        exact (staysBefore_exprStmt hm' hs _).mono hsuffix
      · rw [List.cons_append, declarationOrFail_eq_statement _ (by simp [hk]), statement,
          accept_bind_of_mem (by simp [hk])]
        simp only [hk]
        exact (staysBefore_ifStmt hi hs hr).mono hsuffix

/-- Whether it is dropped or not, what can be a statement ends at its semicolon. -/
theorem declaration_of_isSimpleText (h : IsSimpleText m) (hs : s.kind = .semicolon)
    (hr : ∀ t ∈ rest.head?, t.kind ≠ .kwElse) :
    (declaration (deeperWithin n) (m ++ s :: rest)).rest = rest ∧
      ∀ c ∈ (declaration (deeperWithin n) (m ++ s :: rest)).complaints,
        ∃ m', m' <:+ m ∧ c.ahead = m' ++ s :: rest := by
  have hstays := staysBefore_declarationOrFail (n := n) h hs hr
  unfold declaration
  dsimp only
  cases ho : (declarationOrFail (deeperWithin n) (m ++ s :: rest)).result with
  | some node => exact ⟨hstays.taken (by rw [ho]; rfl), hstays.about⟩
  | none =>
    obtain ⟨m', ⟨before, rfl⟩, he⟩ := hstays.failed ho
    refine ⟨?_, hstays.about⟩
    rw [he]
    cases m' with
    | nil => exact resume_of_semicolon hs rest
    -- Tokens left before the semicolon are skipped: none of them starts a statement.
    | cons t m' =>
      have ht : t.kind ≠ .semicolon := fun hk => h.kinds t (by simp) (by simp [hk])
      refine resume_cons_inner ht (fun u hu => h.isInner u ?_) hs rest
      cases before with
      | nil => exact hu
      | cons b before => simp [hu]

/-- A malformed statement is dropped, and what comes after it is parsed as if it stood alone. -/
theorem program_malformed (h : IsSimpleText m) (hs : s.kind = .semicolon)
    (hr : ∀ t ∈ rest.head?, t.kind ≠ .kwElse) :
    ∃ nodes complaints, nodes.length ≤ 1 ∧
      (∀ c ∈ complaints, ∃ m', m' <:+ m ∧ c.ahead = m' ++ s :: rest) ∧
      program (m ++ s :: rest) = (nodes ++ (program rest).1, complaints ++ (program rest).2) := by
  obtain ⟨hrest, habout⟩ := declaration_of_isSimpleText (n := maxNesting) h hs hr
  refine ⟨(declaration (deeperWithin maxNesting) (m ++ s :: rest)).result.join.toList, _, ?_,
    habout, ?_⟩
  · cases (declaration (deeperWithin maxNesting) (m ++ s :: rest)).result.join <;> simp
  · rw [program_of_ne_nil (by simp), hrest]

end

/-- What stands behind an end of input is not looked at. -/
theorem body_append_of_eof {us : List Token} (h : ∃ t ∈ us, t.kind = .eof) (ts : List Token) :
    body (us ++ ts) = body us := by
  induction us with
  | nil => simp at h
  | cons u us ih =>
    by_cases hu : u.kind = .eof
    · simp [body, hu]
    · have ht : ∃ t ∈ us, t.kind = .eof := by simpa [hu] using h
      have := ih ht
      simp only [body, List.cons_append] at this ⊢
      rw [List.takeWhile_cons_of_pos (by simpa using hu), this,
        List.takeWhile_cons_of_pos (by simpa using hu)]

theorem body_append_last (ts : List Token) {last : Token} (hl : last.kind = .eof) :
    body (ts ++ [last]) = body ts := by
  by_cases h : ∃ t ∈ ts, t.kind = .eof
  · exact body_append_of_eof h [last]
  · have hts : ∀ t ∈ ts, t.kind ≠ .eof := fun t ht hk => h ⟨t, ht, hk⟩
    rw [body_append hts hl, body_of_not_eof hts]

theorem reports_parse_eq_nil_iff (tokens : List Token) :
    (parse tokens).reports = [] ↔ (program (body tokens)).2 = [] :=
  List.map_eq_nil_iff

theorem IsSimpleText.not_eof {m : List Token} (h : IsSimpleText m) : ∀ t ∈ m, t.kind ≠ .eof :=
  fun t ht hk => h.kinds t ht (by simp [hk])

/-- A complaint that is made before the semicolon is over is reported at one of its tokens. -/
theorem exists_token_of_report {m m' rest : List Token} {s : Token} {c : Complaint}
    (hm : m' <:+ m) (hc : c.ahead = m' ++ s :: rest) (endLine : Int) :
    ∃ t ∈ m ++ [s], (c.report endLine).line = t.line ∧
      (c.report endLine).place = Report.placeAt t.text := by
  cases m' with
  | nil =>
    refine ⟨s, by simp, ?_⟩
    rw [Complaint.report, hc]
    exact ⟨rfl, rfl⟩
  | cons t m' =>
    refine ⟨t, List.mem_append_left [s] (hm.subset List.mem_cons_self), ?_⟩
    rw [Complaint.report, hc]
    exact ⟨rfl, rfl⟩

/-- A statement that can be malformed in any way, behind a program without complaints and in front
of another one. -/
theorem program_between {before m after : List Token} {s : Token}
    (hbefore : (program before).2 = []) (hafter : (program after).2 = []) (hm : IsSimpleText m)
    (hs : s.kind = .semicolon) :
    ∃ found complaints, found.length ≤ 1 ∧
      (∀ c ∈ complaints, ∃ m', m' <:+ m ∧ c.ahead = m' ++ s :: after) ∧
      program (before ++ (m ++ s :: after)) =
        ((program before).1 ++ found ++ (program after).1, complaints) := by
  have hstart : ∀ t ∈ (m ++ s :: after).head?, t.kind ≠ .kwElse := by
    rw [List.head?_append]
    intro t ht
    obtain ht | ⟨-, ht⟩ := Option.or_eq_some_iff.1 ht
    · exact hm.first t ht
    · cases ht
      simp [hs]
  obtain ⟨found, complaints, hlength, habout, hmiddle⟩ :=
    program_malformed hm hs (not_kwElse_of_clean hafter)
  refine ⟨found, complaints, hlength, habout, ?_⟩
  rw [program_append hbefore hstart, hmiddle, hafter, List.append_nil, List.append_assoc]

/-- Between two programs that are parsed without a report, a statement without a body that is
malformed in any way loses nothing but itself. All reports are about its tokens or the semicolon
that ends it. If the first program has an end of input in it, nothing behind that is parsed. -/
theorem parse_malformed {before m after : List Token} {s last last₁ last₂ : Token}
    (hl : last.kind = .eof) (hl₁ : last₁.kind = .eof) (hl₂ : last₂.kind = .eof)
    (hbefore : (parse (before ++ [last₁])).reports = [])
    (hafter : (parse (after ++ [last₂])).reports = []) (hm : IsSimpleText m)
    (hs : s.kind = .semicolon) :
    let whole := parse (before ++ m ++ [s] ++ after ++ [last])
    ((∀ t ∈ before, t.kind ≠ .eof) →
      (∃ found, found.length ≤ 1 ∧ whole.program =
        (parse (before ++ [last₁])).program ++ found ++ (parse (after ++ [last₂])).program) ∧
      ∀ r ∈ whole.reports, ∃ t ∈ m ++ [s], r.line = t.line ∧ r.place = Report.placeAt t.text) ∧
    ((∃ t ∈ before, t.kind = .eof) →
      whole.program = (parse (before ++ [last₁])).program ∧ whole.reports = []) := by
  intro whole
  have hwhole : body (before ++ m ++ [s] ++ after ++ [last]) =
      body (before ++ (m ++ ([s] ++ after))) := by
    rw [body_append_last _ hl, List.append_assoc, List.append_assoc]
  have hp : whole.program = (program (body (before ++ (m ++ ([s] ++ after))))).1 := by
    rw [← hwhole]
    rfl
  have hr : whole.reports = (program (body (before ++ (m ++ ([s] ++ after))))).2.map
      (·.report (endLine (before ++ m ++ [s] ++ after ++ [last]))) := by
    rw [← hwhole]
    rfl
  have hfirst : (parse (before ++ [last₁])).program = (program (body before)).1 := by
    rw [parse, body_append_last _ hl₁]
  have hsecond : (parse (after ++ [last₂])).program = (program (body after)).1 := by
    rw [parse, body_append_last _ hl₂]
  rw [reports_parse_eq_nil_iff, body_append_last _ hl₁] at hbefore
  rw [reports_parse_eq_nil_iff, body_append_last _ hl₂] at hafter
  refine ⟨fun hb => ?_, fun hb => ?_⟩
  · rw [body_of_not_eof hb] at hbefore hfirst
    obtain ⟨found, complaints, hlength, habout, hprogram⟩ :=
      program_between hbefore hafter hm hs
    rw [body_append_of_not_eof hb, body_append_of_not_eof hm.not_eof,
      body_append_of_not_eof (by simp [hs]), List.singleton_append, hprogram] at hp hr
    refine ⟨⟨found, hlength, by rw [hp, hfirst, hsecond]⟩, fun r hmem => ?_⟩
    rw [hr] at hmem
    obtain ⟨c, hc, rfl⟩ := List.mem_map.1 hmem
    obtain ⟨m', hsuffix, hahead⟩ := habout c hc
    exact exists_token_of_report hsuffix hahead _
  · rw [body_append_of_eof hb] at hp hr
    rw [hp, hr, hfirst, hbefore]
    exact ⟨rfl, rfl⟩

/-- A declaration without a name, between two statements. -/
theorem parse_malformed_declaration :
    let x : Token := ⟨.identifier, .str "x", .str "x", 1⟩
    let semicolon : Token := ⟨.semicolon, .str ";", .null, 1⟩
    let m : List Token := [⟨.kwLet, .str "let", .null, 1⟩, ⟨.equal, .str "=", .null, 1⟩]
    let whole := parse ([x, semicolon] ++ m ++ [semicolon] ++
      [⟨.kwPrint, .str "print", .null, 1⟩, x, semicolon] ++ [.endOfInput 1])
    (∃ found, found.length ≤ 1 ∧
      whole.program = [.exprStmt (.var x)] ++ found ++ [.printStmt (.var x)]) ∧
      ∀ r ∈ whole.reports,
        ∃ t ∈ m ++ [semicolon], r.line = t.line ∧ r.place = Report.placeAt t.text := by
  intro x semicolon m whole
  have hm : IsSimpleText m := ⟨by decide, by decide, by decide⟩
  have hbefore : parse ([x, semicolon] ++ [.endOfInput 1]) = ⟨[.exprStmt (.var x)], []⟩ := by decide
  have hafter : parse ([⟨.kwPrint, .str "print", .null, 1⟩, x, semicolon] ++ [.endOfInput 1]) =
      ⟨[.printStmt (.var x)], []⟩ := by decide
  have hlast : (Token.endOfInput 1).kind = .eof := rfl
  have h := (parse_malformed hlast hlast hlast (congrArg Parsed.reports hbefore)
    (congrArg Parsed.reports hafter) hm (rfl : semicolon.kind = .semicolon)).1 (by decide)
  rw [hbefore, hafter] at h
  exact h

/-- With an end of input in front of it, a statement takes the program after it along. -/
theorem parse_malformed_after_end :
    let last := Token.endOfInput 1
    let semicolon : Token := ⟨.semicolon, .str ";", .null, 1⟩
    let after : List Token :=
      [⟨.kwPrint, .str "print", .null, 1⟩, ⟨.number, .str "1", .int 1, 1⟩, semicolon]
    (parse ([last] ++ [last])).reports = [] ∧ (parse (after ++ [last])).reports = [] ∧
      IsSimpleText [] ∧ ¬ ∃ found, found.length ≤ 1 ∧
        (parse ([last] ++ [] ++ [semicolon] ++ after ++ [last])).program =
          (parse ([last] ++ [last])).program ++ found ++ (parse (after ++ [last])).program := by
  intro last semicolon after
  refine ⟨by decide, by decide, ⟨by decide, by decide, by decide⟩, ?_⟩
  rintro ⟨found, -, h⟩
  have hwhole : (parse ([last] ++ [] ++ [semicolon] ++ after ++ [last])).program = [] := by decide
  have hafter : (parse (after ++ [last])).program ≠ [] := by decide
  rw [hwhole] at h
  exact hafter (List.append_eq_nil_iff.1 h.symm).2

end LetLang.Parser
