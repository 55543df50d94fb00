import LetLang.Proofs.FrontEnds.Equivalence
import LetLang.Proofs.Grammar.Extension

namespace LetLang

open Strict Piece

namespace Piece

/-- A token that no terminal matches is a single character. -/
def IsShort : Piece → Prop
  | .token kind text => kind ∈ strayKinds → ∃ c, text = [c]
  | _ => True

theorem isShort_cut (c : Char) (cs : List Char) : (cut c cs).1.IsShort := by
  unfold cut
  split
  · exact fun _ => ⟨c, rfl⟩
  · next pair _ h =>
    rw [cutPair_eq]
    unfold pair? at h
    split at h <;> cases h <;> split <;> simp [IsShort, strayKinds]
  · split
    · unfold cutSlash
      split <;> simp [IsShort, strayKinds]
    split
    · unfold cutString
      dsimp only
      split <;> simp [IsShort, strayKinds]
    split
    · exact True.intro
    split
    · unfold cutNumber
      dsimp only
      split <;> simp [IsShort, strayKinds]
    split
    · exact TokenKind.ofWord_induction (P := fun kind => (Piece.token kind _).IsShort)
        (by simp [IsShort, strayKinds]) (by simp [IsShort, strayKinds, TokenKind.keywords]) _
    · exact True.intro

/-- In a text without an error the terminals match all pieces but these. -/
theorem exists_stray {cs : List Char} (he : ∀ p ∈ ofSource cs, p.error? = none) :
    ∀ p ∈ ofSource cs, p.terminal? = none → ∃ kind ∈ strayKinds, ∃ c, p = .token kind [c] := by
  intro p hp ht
  have hshort : p.IsShort := forall_mem_ofSource isShort_cut cs p hp
  cases p with
  | token kind text =>
    have hk : kind ∈ strayKinds := by
      cases kind <;> first | decide | cases ht
    obtain ⟨c, rfl⟩ := hshort hk
    exact ⟨kind, hk, c, rfl⟩
  | blank c | comment text | badNumber text => cases ht
  | stray c | openString text => cases he _ hp

end Piece

namespace Strict

/-- What is scanned of pieces and what is left: nothing, or a token that is no terminal and those
after it. -/
inductive Scanned (line : Nat) (ps : List Piece) : List Token → List Token → Ending → Prop
  | all : Scanned line ps (unchecked line ps) [] .complete
  | stopped {us ws : List Token} {t : Token} {l : Nat} {c : Char} (kind : t.kind ∈ strayKinds)
    (tokens : unchecked line ps = us ++ t :: ws) (place : t.line = l)
    (text : t.text = String.ofList [c]) : Scanned line ps us (t :: ws) (.badCharacter l c)

theorem scanPieces_scanned {line : Nat} {ps : List Piece}
    (h : ∀ p ∈ ps, p.terminal? = none → ∃ kind ∈ strayKinds, ∃ c, p = .token kind [c]) :
    ∃ us ws ending, scanPieces line ps = (us.map Token.plain, ending) ∧
      Scanned line ps us ws ending := by
  induction ps generalizing line with
  | nil => exact ⟨[], [], .complete, rfl, .all⟩
  | cons p ps ih =>
    rw [List.forall_mem_cons] at h
    cases hp : p.terminal? with
    | none =>
      obtain ⟨kind, hk, c, rfl⟩ := h.1 hp
      refine ⟨[], _, .badCharacter line c, by rw [scanPieces, hp]; rfl,
        .stopped hk (by rw [unchecked_cons]; rfl) rfl rfl⟩
    | some kind =>
      -- The pieces after one that is matched are further down by its line feeds.
      obtain ⟨us, ws, ending, hs, hscanned⟩ := @ih (line + lineFeeds p.text) h.2
      have hline : (scanPieces line (p :: ps)) =
          (((unchecked? (line, p)).toList ++ us).map Token.plain, ending) := by
        rw [scanPieces, hp, hs, List.map_append, plain_unchecked? hp]
        cases kind <;> rfl
      cases hscanned with
      | all =>
        rw [← unchecked_cons] at hline
        exact ⟨_, _, _, hline, .all⟩
      | stopped hk ht hl hx =>
        have htokens := unchecked_cons line p ps
        rw [ht, ← List.append_assoc] at htokens
        exact ⟨_, _, _, hline, .stopped hk htokens hl hx⟩

theorem refusal_eq_report {cs : List Char} {us ws rest : List Token} {ending : Ending}
    (h : Scanned 1 (ofSource cs) us ws ending) (error : SyntaxError) :
    (refusal cs ending (rest.map Token.plain)).line =
        (Parser.Complaint.report (Piece.endLine cs) ⟨rest ++ ws, error⟩).line ∧
      (refusal cs ending (rest.map Token.plain)).place =
        (Parser.Complaint.report (Piece.endLine cs) ⟨rest ++ ws, error⟩).place := by
  cases rest with
  | cons t rest => exact ⟨rfl, rfl⟩
  | nil =>
    cases h with
    | all => exact ⟨rfl, rfl⟩
    | stopped kind tokens place text =>
      simp [refusal, Parser.Complaint.report, place, text]

/-- Where the grammar cannot go on, the strict front end refuses the text with that place. -/
theorem parse_of_readProgram_error {text : String} {ahead : List Token}
    (he : ∀ p ∈ ofSource text.toList, p.error? = none)
    (hr : readProgram (uncheckedTokens text) = .error ahead) (error : SyntaxError) :
    ∃ e, Strict.parse text = .error e ∧
      e.line = (Parser.Complaint.report (Piece.endLine text.toList) ⟨ahead, error⟩).line ∧
      e.place = (Parser.Complaint.report (Piece.endLine text.toList) ⟨ahead, error⟩).place := by
  obtain ⟨us, ws, ending, hscan, hs⟩ := @scanPieces_scanned 1 _ (exists_stray he)
  have hstops : (Pattern.rule .program).StopsBefore ws := by
    intro t ht
    cases hs with
    | all => cases ht
    | stopped kind tokens place text =>
      obtain rfl : _ = t := Option.some.inj ht
      exact ⟨kind, rfl⟩
  have htokens : uncheckedTokens text = us ++ ws := by
    cases hs with
    | all => exact (List.append_nil _).symm
    | stopped kind tokens place text => exact tokens
  -- the same tokens twice: as they were scanned, and with those that the parser sees behind them
  have hplain := @readProgram_extend Token.plain [] (fun _ => rfl) nofun us
  have hmore := @readProgram_extend id ws (fun _ => rfl) hstops us
  rw [List.append_nil] at hplain
  rw [List.map_id, ← htokens, hr] at hmore
  rw [Strict.parse, scan_eq (Nat.le_refl _), hscan]
  dsimp only
  rw [hplain]
  cases hread : readProgram us with
  | error rest =>
    rw [hread] at hmore
    obtain rfl : ahead = rest ++ ws := by simpa using hmore
    exact ⟨_, by simp, refusal_eq_report hs error⟩
  | ok trees =>
    rw [hread] at hmore
    cases hs with
    | all => cases hmore
    | stopped kind tokens place text =>
      cases hmore
      exact ⟨_, rfl, @refusal_eq_report _ _ _ [] _ (.stopped kind tokens place text) error⟩

end Strict

theorem strict_parse_of_isTreeOf {text : String} {tree : Tree}
    (he : ∀ p ∈ ofSource text.toList, p.error? = none)
    (ht : IsTreeOf tree (uncheckedTokens text)) :
    Strict.parse text = firstOf (tree.badTargets.map badTarget) tree.statements := by
  have hp := isSome_terminal?_of_isTreeOf he ht
  have hgood : ∀ t ∈ uncheckedTokens text, t.isGoodNumber := by
    refine good_numbers_iff.2 ?_
    rintro _ hm text' rfl
    cases he _ hm
  -- Without lexical errors all numbers are good, so only targets are left to object to.
  have hdefects : tree.defects = tree.badTargets.map badTarget := by
    simpa [defectsAll, badTargetsAll] using ht.derives.defects_of_good hgood
  have hread : readProgram ((uncheckedTokens text).map Token.plain) = .ok [tree.map Token.plain] :=
    readProgram_eq_ok_iff.2 ⟨_, rfl, (isTreeOf_map_iff plain_kind).2 ⟨tree, rfl, ht⟩⟩
  have hm := meanings_of_isTreeOf ht
  have hending := (scan_complete_iff text.toList).2 hp
  have htokens := scan_tokens hp
  rw [Strict.parse]
  generalize scan text.toList 1 text.toList = scanned at *
  obtain ⟨tokens, ending⟩ := scanned
  dsimp only at hending htokens ⊢
  rw [htokens, hending, ← uncheckedTokens, hread]
  dsimp only
  rw [hm, hdefects]
  cases tree.badTargets <;> rfl

section
variable {ts ahead rest : List Token} {trees : List Tree}

theorem readProgram_of_map_ok (h : (readProgram ts).map (fun trees => (trees, [])) = .ok (trees, rest)) :
    readProgram ts = .ok trees := by
  cases hr : readProgram ts with
  | error ahead => simp [hr, Except.map] at h
  | ok trees' => simp_all [Except.map]

theorem readProgram_of_map_error
    (h : (readProgram ts).map (fun trees => (trees, ([] : List Token))) = .error ahead) :
    readProgram ts = .error ahead := by
  cases hr : readProgram ts with
  | error ahead' => simpa [hr, Except.map] using h
  | ok trees => simp [hr, Except.map] at h

end

theorem endLine_of_no_errors {text : String} (he : ∀ p ∈ ofSource text.toList, p.error? = none) :
    Parser.endLine (tokenize text).tokens = Piece.endLine text.toList := by
  have hf : (uncheckedTokens text).find? (·.kind == .eof) = none := by
    rw [List.find?_eq_none]
    intro t ht
    simpa using (isRead_uncheckedTokens text t ht).kind
  rw [Parser.endLine, tokens_of_no_errors he, List.find?_append, hf]
  rfl

theorem report_invalidAssignment {c : Parser.Complaint} {equals : Token} (endLine : Int)
    (h : (c.error, c.ahead.head?) = (.invalidAssignment, some equals)) :
    c.report endLine = badTarget equals := by
  obtain ⟨ahead, error⟩ := c
  obtain ⟨rfl, ha⟩ := Prod.mk.inj h
  cases ahead with
  | nil => cases ha
  | cons t ahead =>
    cases ha
    rfl

theorem reports_of_blames {complaints : List Parser.Complaint} {equals : List Token}
    (h : Parser.Blames complaints equals) (endLine : Int) :
    complaints.map (·.report endLine) = equals.map badTarget := by
  induction complaints generalizing equals with
  | nil =>
    rw [Parser.Blames.eq_nil_iff h |>.1 rfl]
    rfl
  | cons c complaints ih =>
    cases equals with
    | nil => cases h
    | cons t equals =>
      obtain ⟨hc, hrest⟩ := List.cons.inj h
      rw [List.map_cons, List.map_cons, report_invalidAssignment endLine hc, ih hrest]

theorem message_ne_invalidAssignment {e : SyntaxError} (h : e.isRefusal = true) :
    e.message ≠ "Invalid assignment." := by
  cases e <;> first | decide | cases h

theorem placeAt_ne_placeAtEnd (text : String) : Report.placeAt text ≠ Report.placeAtEnd := by
  intro h
  have hchars := congrArg (fun s => s.toList[3]?) h
  simp [Report.placeAt, Report.placeAtEnd] at hchars

/-- A complaint that is reported at the end is reported on the last line. -/
theorem line_of_placeAtEnd {c : Parser.Complaint} {endLine : Int}
    (h : (c.report endLine).place = "at end") : (c.report endLine).line = endLine := by
  obtain ⟨ahead, error⟩ := c
  cases ahead with
  | nil => rfl
  | cons t ahead => exact absurd h (placeAt_ne_placeAtEnd t.text)

/-- The first report that is not about a target. -/
theorem find?_reports {before after : List Report} {first : Report}
    (hb : ∀ r ∈ before, r.message = "Invalid assignment.")
    (hf : first.message ≠ "Invalid assignment.") :
    (before ++ first :: after).find? (·.message != "Invalid assignment.") = some first := by
  rw [List.find?_append, List.find?_eq_none.2 (by simpa using hb), Option.none_or,
    List.find?_cons_of_pos (by simpa using hf)]

theorem message_of_mem_badTargets {equals : List Token} :
    ∀ r ∈ equals.map badTarget, r.message = "Invalid assignment." := by
  intro r hr
  obtain ⟨t, -, rfl⟩ := List.mem_map.1 hr
  rfl

/-- The error that refuses a text stands for the reports on it: it has the place of the first one
that is not about a target, and it is the first one when all of them are. -/
structure Report.StandsFor (e : Report) (reports : List Report) (lastLine : Int) : Prop where
  refusal : ∀ first, reports.find? (·.message != "Invalid assignment.") = some first →
    e.line = first.line ∧ e.place = first.place
  target : (∀ r ∈ reports, r.message = "Invalid assignment.") → reports.head? = some e
  atEnd : e.place = "at end" → e.line = lastLine

theorem standsFor_badTarget (t : Token) (equals : List Token) (lastLine : Int) :
    (badTarget t).StandsFor ((t :: equals).map badTarget) lastLine where
  refusal first h := by
    have hn : first.message = "Invalid assignment." :=
      message_of_mem_badTargets first (List.mem_of_find?_eq_some h)
    simpa [hn] using List.find?_some h
  target _ := rfl
  atEnd h := absurd h (placeAt_ne_placeAtEnd t.text)

theorem standsFor_refusal {e : Report} {before after : List Parser.Complaint} {c : Parser.Complaint}
    {equals : List Token} {lastLine : Int} (blame : Parser.Blames before equals)
    (error : c.error.isRefusal = true) (hl : e.line = (c.report lastLine).line)
    (hp : e.place = (c.report lastLine).place) :
    e.StandsFor ((before ++ c :: after).map (·.report lastLine)) lastLine := by
  have hc : (c.report lastLine).message ≠ "Invalid assignment." := by
    rw [Parser.message_report]
    exact message_ne_invalidAssignment error
  rw [List.map_append, List.map_cons, reports_of_blames blame]
  refine ⟨?_, ?_, ?_⟩
  · intro first h
    rw [find?_reports message_of_mem_badTargets hc] at h
    cases h
    exact ⟨hl, hp⟩
  · intro h
    exact absurd (h _ (by simp)) hc
  · intro h
    rw [hl]
    exact line_of_placeAtEnd (hp ▸ h)

/-- The strict front end refuses a text without lexical errors exactly when the parser reports an
error, and with an error that stands for those reports, as long as nothing nests too deeply. -/
theorem front_ends_refuse_together (text : String) (hl : (Source.ofText text).lexical = [])
    (hd : ∀ r ∈ (Source.ofText text).syntactic,
      r.message ≠ "Expression nests too deeply." ∧ r.message ≠ "Statement nests too deeply.") :
    ((∃ e, Strict.parse text = .error e) ↔ (Source.ofText text).syntactic ≠ []) ∧
    ∀ e, Strict.parse text = .error e →
      e.StandsFor (Source.ofText text).syntactic (1 + text.toList.count '\n') := by
  rw [lexical_eq_nil_iff] at hl
  have hs := (parse_of_no_errors hl).2
  have ha := Parser.program_agrees (uncheckedTokens text)
  rw [endLine_of_no_errors hl] at hs
  rw [hs] at hd ⊢
  generalize Parser.program (uncheckedTokens text) = outcome at ha hd ⊢
  obtain ⟨nodes, complaints⟩ := outcome
  generalize hr : (readProgram (uncheckedTokens text)).map (fun trees => (trees, [])) = parsed at ha
  cases ha with
  | clean value shallow blame =>
    obtain ⟨tree, rfl, ht⟩ := readProgram_eq_ok_iff.1 (readProgram_of_map_ok hr)
    rw [badTargetsAll_singleton] at blame
    rw [reports_of_blames blame, strict_parse_of_isTreeOf hl ht]
    cases tree.badTargets with
    | nil => exact ⟨⟨nofun, fun h => absurd rfl h⟩, nofun⟩
    | cons t equals =>
      refine ⟨⟨fun _ => nofun, fun _ => ⟨_, rfl⟩⟩, ?_⟩
      rintro _ ⟨⟩
      exact standsFor_badTarget t equals _
  | refused before after complaints blame error =>
    obtain ⟨e, he, hline, hplace⟩ := parse_of_readProgram_error hl (readProgram_of_map_error hr) _
    cases complaints
    refine ⟨⟨fun _ => by simp, fun _ => ⟨e, he⟩⟩, ?_⟩
    intro e' he'
    obtain rfl : e = e' := Except.error.inj (he.symm.trans he')
    exact standsFor_refusal blame error hline hplace
  | @tooDeep _ _ c equals before after complaints blame error deep =>
    -- this complaint is one of those that were ruled out
    cases complaints
    have hc := hd (c.report (Piece.endLine text.toList)) (by simp)
    rw [Parser.message_report] at hc
    obtain h | h := message_of_isDepth error
    · exact absurd h hc.1
    · exact absurd h hc.2

/-- A bad target, and then a character for which there is no terminal. -/
theorem front_ends_refuse_dot :
    (Source.ofText "1 = 2;\nx . y").lexical = [] ∧
    (∀ r ∈ (Source.ofText "1 = 2;\nx . y").syntactic,
      r.message ≠ "Expression nests too deeply." ∧ r.message ≠ "Statement nests too deeply.") ∧
    ((∃ e, Strict.parse "1 = 2;\nx . y" = .error e) ↔
      (Source.ofText "1 = 2;\nx . y").syntactic ≠ []) ∧
    ∀ e, Strict.parse "1 = 2;\nx . y" = .error e →
      e.StandsFor (Source.ofText "1 = 2;\nx . y").syntactic
        (1 + "1 = 2;\nx . y".toList.count '\n') := by
  have hl : (Source.ofText "1 = 2;\nx . y").lexical = [] := by decide +kernel
  have hd : ∀ r ∈ (Source.ofText "1 = 2;\nx . y").syntactic,
      r.message ≠ "Expression nests too deeply." ∧ r.message ≠ "Statement nests too deeply." := by
    decide +kernel
  exact ⟨hl, hd, front_ends_refuse_together _ hl hd⟩

end LetLang
