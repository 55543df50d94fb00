import LetLang.Proofs.Execution.Relabeling
import LetLang.Proofs.Execution.Safety
import LetLang.Proofs.FrontEnds.Equivalence

namespace LetLang

/-- The token on no line. -/
def Token.withoutLine (t : Token) : Token := { t with line := 0 }

theorem Token.keepsContent_withoutLine : Token.KeepsContent Token.withoutLine :=
  ⟨fun _ => rfl, fun _ => rfl, fun _ => rfl⟩

/-- What a report says apart from the line. -/
def Report.hint (r : Report) : String × String := (r.place, r.message)

namespace Parser

theorem body_map {f : Token → Token} (hf : Token.KeepsContent f) (ts : List Token) :
    body (ts.map f) = (body ts).map f := by
  unfold body
  rw [List.takeWhile_map]
  exact congrArg (fun p => (ts.takeWhile p).map f) (funext fun t => by simp [hf.kind])

theorem hint_report_map {f : Token → Token} (hf : Token.KeepsContent f) (c : Complaint)
    (endLine endLine' : Int) : ((c.map f).report endLine').hint = (c.report endLine).hint := by
  obtain ⟨ahead, error⟩ := c
  cases ahead with
  | nil => rfl
  | cons t ahead =>
    simp only [Complaint.map, Complaint.report, List.map_cons, Report.hint, Token.text, hf.lexeme]

theorem programWithin_map {f : Token → Token} (hf : Token.KeepsContent f) (n : Nat)
    (ts : List Token) : programWithin n (ts.map f) =
      (Node.mapAll f (programWithin n ts).1, (programWithin n ts).2.map (.map f)) :=
  declarations_map (commutes_declaration hf (deeperWithin_commutes hf n)) ts ts

section
variable {ts ts' : List Token} (h : ts.map Token.withoutLine = ts'.map Token.withoutLine)
include h

theorem programWithin_withoutLine (n : Nat) :
    Node.mapAll Token.withoutLine (programWithin n ts).1 =
        Node.mapAll Token.withoutLine (programWithin n ts').1 ∧
      (programWithin n ts).2.map (Complaint.map Token.withoutLine) =
        (programWithin n ts').2.map (Complaint.map Token.withoutLine) := by
  have hp := congrArg (programWithin n) h
  rw [programWithin_map Token.keepsContent_withoutLine,
    programWithin_map Token.keepsContent_withoutLine] at hp
  exact Prod.mk.inj hp

/-- Tokens on other lines are parsed to the same program, with the same complaints. -/
theorem parse_withoutLine :
    Node.mapAll Token.withoutLine (parse ts).program = Node.mapAll Token.withoutLine (parse ts').program ∧
      (parse ts).reports.map Report.hint = (parse ts').reports.map Report.hint := by
  have hb : (body ts).map Token.withoutLine = (body ts').map Token.withoutLine := by
    rw [← body_map Token.keepsContent_withoutLine, h, body_map Token.keepsContent_withoutLine]
  obtain ⟨hprogram, hcomplaints⟩ := programWithin_withoutLine hb maxNesting
  refine ⟨hprogram, ?_⟩
  -- a hint is that of the complaint about tokens without lines
  have hhints (us : List Token) : (parse us).reports.map Report.hint =
      ((program (body us)).2.map (Complaint.map Token.withoutLine)).map fun c => (c.report 0).hint := by
    simp only [parse, List.map_map]
    exact List.map_congr_left fun c _ =>
      (hint_report_map Token.keepsContent_withoutLine c _ _).symm
  rw [hhints, hhints]
  exact congrArg _ hcomplaints

end

end Parser

namespace Strict

/-- Tokens on other lines have a tree too, and it stands for the same program. -/
theorem IsTreeOf.withoutLine {us us' : List Token} {tree : Tree} (ht : IsTreeOf tree us)
    (h : us.map Token.withoutLine = us'.map Token.withoutLine) (hb : tree.badTargets = []) :
    ∃ tree', IsTreeOf tree' us' ∧ tree'.badTargets = [] ∧
      Node.mapAll Token.withoutLine tree.statements = Node.mapAll Token.withoutLine tree'.statements := by
  have hk : ∀ t, (Token.withoutLine t).kind = t.kind := Token.keepsContent_withoutLine.kind
  have hm := (isTreeOf_map_iff hk).2 ⟨tree, rfl, ht⟩
  rw [h] at hm
  obtain ⟨tree', -, ht'⟩ := (isTreeOf_map_iff hk).1 hm
  -- with levels enough for both, the parser finds them both
  obtain ⟨hs, hblame⟩ := Parser.programWithin_of_isTreeOf ht (Nat.le_max_left _ tree'.nesting)
  obtain ⟨hs', hblame'⟩ := Parser.programWithin_of_isTreeOf ht' (Nat.le_max_right tree.nesting _)
  obtain ⟨hprogram, hcomplaints⟩ :=
    Parser.programWithin_withoutLine h (max tree.nesting tree'.nesting)
  refine ⟨tree', ht', hblame'.eq_nil_iff.1 ?_, by rw [← hs, ← hs', hprogram]⟩
  rw [hblame.eq_nil_iff.2 hb] at hcomplaints
  exact List.map_eq_nil_iff.1 hcomplaints.symm

end Strict

/-- The strict front end accepts the texts without a lexical error that have a tree with good
targets. -/
theorem strict_accepts_iff {text : String} {q : List Node} :
    Strict.parse text = .ok q ↔ (tokenize text).reports = [] ∧
      ∃ tree, Strict.IsTreeOf tree (uncheckedTokens text) ∧ tree.badTargets = [] ∧
        q = tree.statements := by
  rw [strict_parse_eq_ok_iff]
  constructor
  · rintro ⟨hp, hg, htree⟩
    refine ⟨(lexical_eq_nil_iff text).2 fun p hm => ?_, htree⟩
    exact Piece.error?_of_isSome (hp p hm) (Piece.good_numbers_iff.1 hg p hm)
  · rintro ⟨hl, tree, ht, hb, rfl⟩
    have hl := (lexical_eq_nil_iff text).1 hl
    refine ⟨isSome_terminal?_of_isTreeOf hl ht, Piece.good_numbers_iff.2 ?_, tree, ht, hb, rfl⟩
    rintro _ hp text' rfl
    cases hl _ hp

/-- The two runs did the same, and blame the same token, maybe on another line. -/
structure RunResult.AgreesUpToLines (r r' : RunResult) : Prop where
  output : r.output = r'.output
  environment : r.environment = r'.environment
  stop : r.stop.map (Stop.map Token.withoutLine) = r'.stop.map (Stop.map Token.withoutLine)

theorem interpret_agreesUpToLines {program program' : List Node}
    (h : Node.mapAll Token.withoutLine program = Node.mapAll Token.withoutLine program')
    (settings : Settings) (env : Environment) :
    (interpret settings env program).AgreesUpToLines (interpret settings env program') := by
  obtain ⟨henv, hout, hstop⟩ :=
    interpret_map Token.keepsContent_withoutLine settings env program
  obtain ⟨henv', hout', hstop'⟩ :=
    interpret_map Token.keepsContent_withoutLine settings env program'
  rw [h] at henv hout hstop
  exact ⟨hout.symm.trans hout', henv.symm.trans henv', hstop.symm.trans hstop'⟩

/-- Layout does not matter. Two texts with the same tokens and lexical errors, up to their lines,
have the same syntax errors and the same program, up to lines, and running them does the same. The
strict front end accepts both or neither. -/
theorem layout_irrelevant {text text' : String}
    (htokens : (tokenize text).tokens.map Token.withoutLine =
      (tokenize text').tokens.map Token.withoutLine)
    (hlexical : (tokenize text).reports.map Report.hint =
      (tokenize text').reports.map Report.hint) :
    (Source.ofText text).syntactic.map Report.hint =
        (Source.ofText text').syntactic.map Report.hint ∧
      Node.mapAll Token.withoutLine (Source.ofText text).program =
        Node.mapAll Token.withoutLine (Source.ofText text').program ∧
      (∀ settings env, (runSource settings env text).result.AgreesUpToLines
        (runSource settings env text').result) ∧
      ∀ q, Strict.parse text = .ok q → ∃ q', Strict.parse text' = .ok q' ∧
        Node.mapAll Token.withoutLine q = Node.mapAll Token.withoutLine q' ∧
        ∀ settings env, (interpret settings env q).AgreesUpToLines (interpret settings env q') := by
  have hparse := Parser.parse_withoutLine htokens
  have hprogram : Node.mapAll Token.withoutLine (Source.ofText text).program =
      Node.mapAll Token.withoutLine (Source.ofText text').program := hparse.1
  refine ⟨hparse.2, hprogram, fun settings env => ?_, fun q hq => ?_⟩
  · rw [runSource_eq, runSource_eq]
    exact interpret_agreesUpToLines hprogram settings env
  · obtain ⟨hl, tree, ht, hb, rfl⟩ := strict_accepts_iff.1 hq
    have hl' : (tokenize text').reports = [] := by
      rw [hl] at hlexical
      exact List.map_eq_nil_iff.1 hlexical.symm
    have hunchecked : (uncheckedTokens text).map Token.withoutLine =
        (uncheckedTokens text').map Token.withoutLine := by
      rw [tokens_of_no_errors ((lexical_eq_nil_iff text).1 hl),
        tokens_of_no_errors ((lexical_eq_nil_iff text').1 hl'), List.map_append, List.map_append]
        at htokens
      exact List.append_cancel_right htokens
    obtain ⟨tree', ht', hb', hs⟩ := ht.withoutLine hunchecked hb
    exact ⟨tree'.statements, strict_accepts_iff.2 ⟨hl', tree', ht', hb', rfl⟩, hs,
      interpret_agreesUpToLines hs⟩

/-- One statement on one line and on three, with a comment. -/
theorem layout_irrelevant_three_lines :
    (tokenize "print -true;").tokens.map Token.withoutLine =
      (tokenize "print // nothing\n-\ntrue;").tokens.map Token.withoutLine ∧
    (runSource ⟨100, 100, 0⟩ .empty "print -true;").result.AgreesUpToLines
      (runSource ⟨100, 100, 0⟩ .empty "print // nothing\n-\ntrue;").result ∧
    (runSource ⟨100, 100, 0⟩ .empty "print // nothing\n-\ntrue;").result.stop =
      some (.fault ⟨some ⟨.minus, .str "-", .null, 2⟩, .operandNotNumber⟩) := by
  have htokens : (tokenize "print -true;").tokens.map Token.withoutLine =
      (tokenize "print // nothing\n-\ntrue;").tokens.map Token.withoutLine := by decide +kernel
  have hlexical : (tokenize "print -true;").reports.map Report.hint =
      (tokenize "print // nothing\n-\ntrue;").reports.map Report.hint := by decide +kernel
  exact ⟨htokens, (layout_irrelevant htokens hlexical).2.2.1 ⟨100, 100, 0⟩ .empty,
    by decide +kernel⟩

end LetLang
