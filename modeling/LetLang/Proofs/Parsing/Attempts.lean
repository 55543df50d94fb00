import LetLang.Proofs.Parsing.Recording

namespace LetLang.Parser

/-- Where declarations were dropped. -/
def dropsOf (attempts : List Attempt) : List (List Token) :=
  (attempts.filter (·.isDropped)).map (·.stop)

@[simp] theorem dropsOf_nil : dropsOf [] = [] := rfl

@[simp] theorem dropsOf_append (as bs : List Attempt) :
    dropsOf (as ++ bs) = dropsOf as ++ dropsOf bs := by
  simp [dropsOf]

/-- The second place is further on than the first one, or both are the end. -/
def Later (s t : List Token) : Prop := t.length < s.length ∨ s = [] ∧ t = []

theorem Later.mono {s t u : List Token} (h : Later s t) (hu : u <:+ t) : Later s u := by
  obtain h | ⟨rfl, rfl⟩ := h
  · exact .inl (Nat.lt_of_le_of_lt hu.length_le h)
  · exact .inr ⟨rfl, List.suffix_nil.1 hu⟩

/-- The attempt is one that the parser makes with fewer levels left than `n`. Whatever comes of it,
it takes tokens from the front. -/
structure Attempt.IsMade (n : Nat) (a : Attempt) : Prop where
  made : ∃ levels complaints, levels < n ∧
    declarationOrFail (deeperWithin levels) a.ahead = ⟨a.found, a.stop, complaints⟩ ∧
    declaration (deeperWithin levels) a.ahead = ⟨some a.found, a.rest, complaints⟩
  stop : a.stop <:+ a.ahead
  rest : a.rest <:+ a.stop
  taken : a.rest.length < a.ahead.length

theorem Attempt.IsMade.mono {n m : Nat} {a : Attempt} (h : a.IsMade n) (hm : n ≤ m) :
    a.IsMade m := by
  obtain ⟨levels, complaints, hlt, hmade⟩ := h.made
  exact ⟨⟨levels, complaints, Nat.lt_of_lt_of_le hlt hm, hmade⟩, h.stop, h.rest, h.taken⟩

section
variable {α β : Type} {n m k : Nat} {ts : List Token}

/-- What came of some tokens and of the attempts in them: there is one error that stops for each
declaration that was dropped, and one more if it failed as a whole. These errors go on and on, and
so many of them at most are at the end. -/
structure Keeps (n : Nat) (ts : List Token) (o : Outcome α) (attempts : List Attempt) : Prop where
  suffix : o.rest <:+ ts
  made : ∀ a ∈ attempts, a.ahead <:+ ts ∧ a.IsMade n
  stops : stops o.complaints =
    dropsOf attempts ++ if o.result.isSome then [] else [o.rest]
  later : (dropsOf attempts ++ [o.rest]).Pairwise Later
  ends : (dropsOf attempts).count [] ≤ n

/-- A recorder that keeps to this on all texts. -/
def Orderly (n : Nat) (f : Recorder α) : Prop := ∀ ts, Keeps n ts (f ts).1 (f ts).2

theorem Keeps.mono {o : Outcome α} {attempts : List Attempt} (h : Keeps n ts o attempts)
    (hm : n ≤ m) : Keeps m ts o attempts :=
  ⟨h.suffix, fun a ha => ⟨(h.made a ha).1, (h.made a ha).2.mono hm⟩, h.stops, h.later,
    Nat.le_trans h.ends hm⟩

theorem Keeps.within {o : Outcome α} {attempts : List Attempt} {us : List Token}
    (h : Keeps n ts o attempts) (hu : ts <:+ us) : Keeps n us o attempts :=
  ⟨h.suffix.trans hu, fun a ha => ⟨(h.made a ha).1.trans hu, (h.made a ha).2⟩, h.stops, h.later,
    h.ends⟩

theorem orderly_plain {f : Parse α} (h : Steady k f) : Orderly n (.plain f) := by
  intro ts
  obtain ⟨hsuffix, -, -, hstops⟩ := h ts
  exact ⟨hsuffix, nofun, hstops, List.pairwise_singleton _ _, Nat.zero_le n⟩

theorem orderly_pure (a : α) : Orderly n (pure a : Recorder α) := orderly_plain (steady_pure a)

/-- There are no attempts at the end. -/
theorem Keeps.attempts_eq_nil {o : Outcome α} {attempts : List Attempt}
    (h : Keeps n [] o attempts) : attempts = [] := by
  refine List.eq_nil_iff_forall_not_mem.2 fun a ha => ?_
  obtain ⟨hahead, hmade⟩ := h.made a ha
  have := hmade.taken
  rw [List.suffix_nil.1 hahead] at this
  exact Nat.not_lt_zero _ this

theorem Keeps.drops_suffix {o : Outcome α} {attempts : List Attempt} (h : Keeps n ts o attempts) :
    ∀ s ∈ dropsOf attempts, s <:+ ts := by
  intro s hs
  obtain ⟨a, ha, rfl⟩ := List.mem_map.1 hs
  obtain ⟨hahead, hmade⟩ := h.made a (List.mem_filter.1 ha).1
  exact hmade.stop.trans hahead

theorem Keeps.later_rest {o : Outcome α} {attempts : List Attempt} (h : Keeps n ts o attempts) :
    ∀ s ∈ dropsOf attempts, Later s o.rest :=
  fun s hs => (List.pairwise_append.1 h.later).2.2 s hs o.rest List.mem_cons_self

/-- Going on after a success. -/
theorem Keeps.followed {o : Outcome α} {o' : Outcome β} {as bs : List Attempt}
    (h : Keeps n ts o as) (hr : o.result.isSome) (h' : Keeps n o.rest o' bs) :
    Keeps n ts ⟨o'.result, o'.rest, o.complaints ++ o'.complaints⟩ (as ++ bs) := by
  refine ⟨h'.suffix.trans h.suffix, ?_, ?_, ?_, ?_⟩
  · exact List.forall_mem_append.2 ⟨h.made, (h'.within h.suffix).made⟩
  · rw [stops_append, dropsOf_append, h.stops, h'.stops, if_pos hr, List.append_nil,
      List.append_assoc]
  · rw [dropsOf_append, List.append_assoc]
    refine List.pairwise_append.2 ⟨(List.pairwise_append.1 h.later).1, h'.later, ?_⟩
    refine fun s hs t ht => (h.later_rest s hs).mono ?_
    obtain ht | ht := List.mem_append.1 ht
    · exact h'.drops_suffix t ht
    · rw [List.mem_singleton.1 ht]
      exact h'.suffix
  · rw [dropsOf_append, List.count_append]
    by_cases hend : [] ∈ dropsOf as
    · -- the end has been reached, and nothing is tried there
      obtain hlt | ⟨-, hrest⟩ := h.later_rest [] hend
      · exact absurd hlt (Nat.not_lt_zero _)
      · rw [hrest] at h'
        rw [h'.attempts_eq_nil, dropsOf_nil, List.count_nil]
        exact h.ends
    · rw [List.count_eq_zero.2 hend, Nat.zero_add]
      exact h'.ends

theorem Keeps.bind {f : Recorder α} {g : α → Recorder β} (hf : Keeps n ts (f ts).1 (f ts).2)
    (hg : ∀ a, Orderly n (g a)) : Keeps n ts ((f >>= g) ts).1 ((f >>= g) ts).2 := by
  cases hr : (f ts).1.result with
  | none =>
    have hstops := hf.stops
    rw [hr] at hstops
    rw [Recorder.bind_failed hr]
    exact ⟨hf.suffix, hf.made, hstops, hf.later, hf.ends⟩
  | some a =>
    rw [Recorder.bind_found hr]
    exact hf.followed (by rw [hr]; rfl) (hg a _)

theorem Orderly.bind {f : Recorder α} {g : α → Recorder β} (hf : Orderly n f)
    (hg : ∀ a, Orderly n (g a)) : Orderly n (f >>= g) :=
  fun ts => (hf ts).bind hg

theorem Orderly.mono {f : Recorder α} (h : Orderly n f) (hm : n ≤ m) : Orderly m f :=
  fun ts => (h ts).mono hm

/-- What is tried one level deeper. -/
structure DeeperOrderly (n : Nat) (inner : Recorder.Deeper) : Prop where
  statement : Orderly n inner.statement
  declaration : ∀ ts, ts ≠ [] →
    Keeps n ts (inner.declaration ts).1 (inner.declaration ts).2

/-- Declarations are tried only where there are tokens. -/
theorem orderly_row {closes : Token → Bool} {declaration : Recorder (Option Node)}
    (hd : ∀ ts, ts ≠ [] → Keeps n ts (declaration ts).1 (declaration ts).2) (bound : List Token) :
    Orderly n (.row closes declaration bound) := by
  induction bound with
  | nil => exact orderly_pure []
  | cons b bound ih =>
    intro ts
    rw [Recorder.row, Recorder.plain_bind rfl]
    cases ts with
    | nil => exact orderly_pure [] []
    | cons t ts =>
      dsimp only
      split
      · exact orderly_pure [] (t :: ts)
      · refine (hd (t :: ts) (List.cons_ne_nil t ts)).bind fun first => ih.bind fun others => ?_
        exact orderly_pure _

end

section
variable {n : Nat} {deeper : Deeper} {inner : Recorder.Deeper} (hs : DeeperSteady deeper)
  (h : DeeperOrderly n inner)

theorem orderly_expect (kind : TokenKind) {e : SyntaxError} (he : e ≠ .invalidAssignment) :
    Orderly n (.plain (expect kind e)) :=
  orderly_plain (steady_expect kind he)

include h in
theorem orderly_block : Orderly n (.block inner) := by
  refine (orderly_plain steady_lookahead).bind fun bound => ?_
  refine (orderly_row h.declaration bound).bind fun body => ?_
  exact (orderly_expect .kwEnd (by decide)).bind fun _ => orderly_pure body

include hs h

theorem orderly_ifStmt : Orderly n (.ifStmt deeper inner) := by
  refine (orderly_plain (expression_steady hs)).bind fun condition => ?_
  refine (orderly_expect .kwThen (by decide)).bind fun _ => ?_
  refine h.statement.bind fun thenBranch => Orderly.bind ?_ fun elseBranch => orderly_pure _
  refine (orderly_plain (steady_accept _)).bind fun found => ?_
  cases found with
  | none => exact orderly_pure _
  | some t => exact h.statement

theorem orderly_forStmt (keyword : Token) : Orderly n (.forStmt deeper inner keyword) := by
  refine (orderly_expect .identifier (by decide)).bind fun _ => ?_
  refine (orderly_expect .kwIn (by decide)).bind fun _ => ?_
  refine (orderly_plain (sum_steady hs)).bind fun start => ?_
  refine (orderly_expect .doubleDot (by decide)).bind fun _ => ?_
  refine (orderly_plain (sum_steady hs)).bind fun finish => ?_
  refine (orderly_expect .kwBegin (by decide)).bind fun _ => ?_
  exact (orderly_block h).bind fun body => orderly_pure _

theorem orderly_whileStmt : Orderly n (.whileStmt deeper inner) := by
  refine (orderly_plain (expression_steady hs)).bind fun condition => ?_
  refine (orderly_expect .kwBegin (by decide)).bind fun _ => ?_
  exact (orderly_block h).bind fun body => orderly_pure _

theorem orderly_statement : Orderly n (.statement deeper inner) := by
  refine (orderly_plain (steady_accept _)).bind fun found => ?_
  cases found with
  | none => exact orderly_plain (exprStmt_steady hs _)
  | some t =>
    dsimp only
    split
    · exact orderly_ifStmt hs h
    · exact orderly_plain (exprStmt_steady hs _)
    · exact orderly_forStmt hs h t
    · exact orderly_whileStmt hs h

theorem orderly_declarationOrFail : Orderly n (.declarationOrFail deeper inner) := by
  refine (orderly_plain (steady_accept _)).bind fun found => ?_
  cases found with
  | none => exact orderly_statement hs h
  | some t => exact orderly_plain (varDecl_steady hs)

end

theorem later_resume (ts : List Token) : Later ts (resume ts) := by
  by_cases h : ts = []
  · subst h
    exact .inr ⟨rfl, rfl⟩
  · exact .inl (length_resume_lt h)

section
variable {n : Nat} {ts rest : List Token} {complaints : List Complaint} {nested : List Attempt}

theorem Keeps.found {node : Node} (h : Keeps n ts ⟨some node, rest, complaints⟩ nested)
    (hmade : Attempt.IsMade (n + 1) ⟨ts, some node, rest, rest⟩) :
    Keeps (n + 1) ts (⟨some (some node), rest, complaints⟩ : Outcome (Option Node))
      (nested ++ [⟨ts, some node, rest, rest⟩]) := by
  have hdrops : dropsOf (nested ++ [⟨ts, some node, rest, rest⟩]) = dropsOf nested := by
    rw [dropsOf_append]
    exact List.append_nil _
  refine ⟨h.suffix, ?_, ?_, ?_, ?_⟩
  · exact List.forall_mem_append.2 ⟨(h.mono (Nat.le_succ n)).made,
      List.forall_mem_singleton.2 ⟨List.suffix_refl ts, hmade⟩⟩
  · rw [hdrops]
    exact h.stops
  · rw [hdrops]
    exact h.later
  · rw [hdrops]
    exact Nat.le_succ_of_le h.ends

/-- A declaration that is dropped has its own error after those of the ones in it, and if it is at
the end there is one more there. -/
theorem Keeps.dropped (h : Keeps n ts (⟨none, rest, complaints⟩ : Outcome Node) nested)
    (hmade : Attempt.IsMade (n + 1) ⟨ts, none, rest, resume rest⟩) :
    Keeps (n + 1) ts (⟨some none, resume rest, complaints⟩ : Outcome (Option Node))
      (nested ++ [⟨ts, none, rest, resume rest⟩]) := by
  have hdrops : dropsOf (nested ++ [⟨ts, none, rest, resume rest⟩]) = dropsOf nested ++ [rest] := by
    rw [dropsOf_append]
    rfl
  refine ⟨(resume_suffix rest).trans h.suffix, ?_, ?_, ?_, ?_⟩
  · exact List.forall_mem_append.2 ⟨(h.mono (Nat.le_succ n)).made,
      List.forall_mem_singleton.2 ⟨List.suffix_refl ts, hmade⟩⟩
  · rw [hdrops]
    exact h.stops.trans (List.append_nil _).symm
  -- Where the dropped one stopped is behind all stops in it, as parsing resumed further on.
  · rw [hdrops]
    refine List.pairwise_append.2 ⟨h.later, List.pairwise_singleton _ _, ?_⟩
    refine fun s hs t ht => ?_
    rw [List.mem_singleton.1 ht]
    obtain hs | hs := List.mem_append.1 hs
    · exact (h.later_rest s hs).mono (resume_suffix rest)
    · rw [List.mem_singleton.1 hs]
      exact later_resume rest
  · rw [hdrops, List.count_append]
    exact Nat.add_le_add h.ends List.count_le_length

theorem keeps_declaration {inner : Recorder.Deeper}
    (hm : Recorder.Mirrors (deeperWithin n) inner) (h : DeeperOrderly n inner) (hn : ts ≠ []) :
    Keeps (n + 1) ts (Recorder.declaration (deeperWithin n) inner ts).1
      (Recorder.declaration (deeperWithin n) inner ts).2 := by
  have hk := orderly_declarationOrFail (deeperWithin_steady n) h ts
  have hfail : (Recorder.declarationOrFail (deeperWithin n) inner ts).1 =
      declarationOrFail (deeperWithin n) ts := congrFun (Recorder.parser_declarationOrFail hm) ts
  have hd : (Recorder.declaration (deeperWithin n) inner ts).1 = declaration (deeperWithin n) ts :=
    congrFun (Recorder.parser_declaration hm) ts
  have hlt := length_rest_declaration_lt n hn
  rw [← hd] at hlt
  unfold Recorder.declaration at hlt hd ⊢
  generalize Recorder.declarationOrFail (deeperWithin n) inner ts = p at hk hfail hd hlt ⊢
  obtain ⟨⟨_ | node, rest, complaints⟩, nested⟩ := p
  · exact hk.dropped ⟨⟨n, complaints, Nat.lt_succ_self n, hfail.symm, hd.symm⟩, hk.suffix,
      resume_suffix rest, hlt⟩
  · exact hk.found ⟨⟨n, complaints, Nat.lt_succ_self n, hfail.symm, hd.symm⟩, hk.suffix,
      List.suffix_refl rest, hlt⟩

end

theorem deeperOrderly (n : Nat) : DeeperOrderly n (Recorder.within n) := by
  induction n with
  | zero =>
    have hfail {α : Type} : Orderly 0 (.plain (fail .statementTooDeep : Parse α)) :=
      orderly_plain (steady_fail (by decide) 0)
    exact ⟨hfail, fun ts _ => hfail ts⟩
  | succ n ih =>
    refine ⟨(orderly_statement (deeperWithin_steady n) ih).mono (Nat.le_succ n), ?_⟩
    exact fun ts hn => keeps_declaration (Recorder.within_mirrors n) ih hn

theorem keeps_program (ts : List Token) :
    Keeps (maxNesting + 1) ts (Recorder.program ts).1 (Recorder.program ts).2 :=
  orderly_row (fun _ => keeps_declaration (Recorder.within_mirrors maxNesting)
    (deeperOrderly maxNesting)) ts ts

theorem invalidAssignment_message_iff (e : SyntaxError) :
    e.message = "Invalid assignment." ↔ e = .invalidAssignment := by
  cases e <;> decide

/-- Where an error at a place is reported. -/
def reportedAt (endLine : Int) : List Token → Int × String
  | t :: _ => (t.line, Report.placeAt t.text)
  | [] => (endLine, Report.placeAtEnd)

theorem reportedAt_ahead (endLine : Int) (c : Complaint) :
    ((c.report endLine).line, (c.report endLine).place) = reportedAt endLine c.ahead := by
  unfold Complaint.report reportedAt
  cases c.ahead <;> rfl

theorem reports_of_stops (endLine : Int) (complaints : List Complaint) :
    ((complaints.map (·.report endLine)).filter (·.message != "Invalid assignment.")).map
        (fun r => (r.line, r.place)) = (stops complaints).map (reportedAt endLine) := by
  have hmessage (c : Complaint) : ((c.report endLine).message != "Invalid assignment.") =
      (c.error != .invalidAssignment) := by
    rw [message_report, bne, bne, Bool.not_inj_iff, Bool.eq_iff_iff, beq_iff_eq, beq_iff_eq,
      invalidAssignment_message_iff]
  simp only [List.filter_map, Function.comp_def, hmessage, List.map_map, reportedAt_ahead, stops]

theorem parse_of_body_eq {us vs : List Token} (hb : body us = body vs)
    (hl : endLine us = endLine vs) : parse us = parse vs := by
  rw [parse, parse, hb, hl]

theorem parse_append_eof {before : List Token} {e : Token} (hb : ∀ t ∈ before, t.kind ≠ .eof)
    (he : e.kind = .eof) (after : List Token) :
    parse (before ++ e :: after) = parse (before ++ [.endOfInput e.line]) := by
  have hfind : before.find? (·.kind == .eof) = none := by simpa using hb
  apply parse_of_body_eq
  · rw [body, body, List.takeWhile_append_of_pos (by simpa using hb),
      List.takeWhile_append_of_pos (by simpa using hb)]
    simp [he, Token.endOfInput]
  · simp [endLine, List.find?_append, hfind, he, Token.endOfInput]

theorem parse_without_eof {tokens : List Token} (h : ∀ t ∈ tokens, t.kind ≠ .eof) :
    parse tokens =
      parse (tokens ++ [.endOfInput ((tokens.getLast?.map (·.line)).getD 1)]) := by
  have hfind : tokens.find? (·.kind == .eof) = none := by simpa using h
  apply parse_of_body_eq
  · rw [body_append h rfl, body_of_not_eof h]
  · simp [endLine, List.find?_append, hfind, Token.endOfInput]

/-- All that is parsed and reported comes of the attempts: each one that drops its declaration is
stopped by one error, and all other errors are about targets. -/
structure Accounted (tokens : List Token) (run : Outcome (List Node) × List Attempt) : Prop where
  program : run.1.result = some (parse tokens).program
  reports : (parse tokens).reports = run.1.complaints.map (·.report (endLine tokens))
  made : ∀ a ∈ run.2, a.ahead <:+ body tokens ∧ a.IsMade (maxNesting + 1)
  stops : stops run.1.complaints = dropsOf run.2
  places : ((parse tokens).reports.filter (·.message != "Invalid assignment.")).map
    (fun r => (r.line, r.place)) = (dropsOf run.2).map (reportedAt (endLine tokens))
  later : (dropsOf run.2).Pairwise Later
  ends : (dropsOf run.2).count [] ≤ maxNesting + 1

theorem accounted_program (tokens : List Token) :
    Accounted tokens (Recorder.program (body tokens)) := by
  obtain ⟨hresult, hcomplaints⟩ := Recorder.outcome_program (body tokens)
  have hkeeps := keeps_program (body tokens)
  have hstops : stops (Recorder.program (body tokens)).1.complaints =
      dropsOf (Recorder.program (body tokens)).2 := by
    rw [hkeeps.stops, hresult]
    exact List.append_nil _
  have hreports : (parse tokens).reports =
      (Recorder.program (body tokens)).1.complaints.map (·.report (endLine tokens)) := by
    rw [hcomplaints]
    rfl
  exact
    { program := hresult
      reports := hreports
      made := hkeeps.made
      stops := hstops
      places := by rw [hreports, reports_of_stops, hstops]
      later := (List.pairwise_append.1 hkeeps.later).1
      ends := hkeeps.ends }

/-- On all tokens the parser gets to the end of input, to the first one if there are more, and no
loop is ended by its bound. Every attempt at a declaration takes tokens, and the errors that stop
one account for what is dropped. -/
theorem parse_attempts (tokens : List Token) :
    Accounted tokens (Recorder.program (body tokens)) ∧
      (∀ n, Recorder.Mirrors (deeperWithin n) (Recorder.within n) ∧
        BoundsSuffice (deeperWithin n) ∧
        ∀ ts, ts ≠ [] → (declaration (deeperWithin n) ts).rest.length < ts.length) ∧
      (∀ before e after, tokens = before ++ e :: after → (∀ t ∈ before, t.kind ≠ .eof) →
        e.kind = .eof → parse tokens = parse (before ++ [.endOfInput e.line])) ∧
      ((∀ t ∈ tokens, t.kind ≠ .eof) →
        parse tokens =
          parse (tokens ++ [.endOfInput ((tokens.getLast?.map (·.line)).getD 1)])) := by
  refine ⟨accounted_program tokens, fun n => ?_, ?_, parse_without_eof⟩
  · exact ⟨Recorder.within_mirrors n, boundsSuffice n, fun ts => length_rest_declaration_lt n⟩
  · rintro before e after rfl hb he
    exact parse_append_eof hb he after

/-- A block that is not closed is dropped with the statement in it, both at the end. -/
theorem parse_attempts_unclosed :
    let x : Token := ⟨.identifier, .str "x", .str "x", 1⟩
    let tokens : List Token :=
      [⟨.kwWhile, .str "while", .null, 1⟩, x, ⟨.kwBegin, .str "begin", .null, 1⟩,
        ⟨.kwPrint, .str "print", .null, 2⟩]
    Accounted tokens (Recorder.program (body tokens)) ∧
      dropsOf (Recorder.program (body tokens)).2 = [[], []] ∧
      parse tokens = parse (tokens ++ [.endOfInput 2]) ∧
      parse (tokens ++ .endOfInput 2 :: tokens) = parse (tokens ++ [.endOfInput 2]) := by
  intro x tokens
  have hb : ∀ t ∈ tokens, t.kind ≠ .eof := by decide
  have hdrops : dropsOf (Recorder.program (body tokens)).2 = [[], []] := by
    rw [← (parse_attempts tokens).1.stops, (Recorder.outcome_program (body tokens)).2]
    decide
  exact ⟨(parse_attempts tokens).1, hdrops, (parse_attempts tokens).2.2.2 hb,
    (parse_attempts (tokens ++ .endOfInput 2 :: tokens)).2.2.1 tokens (.endOfInput 2) tokens rfl hb
      rfl⟩

end LetLang.Parser
