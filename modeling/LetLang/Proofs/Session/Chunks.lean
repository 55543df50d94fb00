import LetLang.Session
import LetLang.Proofs.Execution.Relabeling
import LetLang.Proofs.FrontEnds.Equivalence
import LetLang.Proofs.Lexing.LineBreaks
import LetLang.Proofs.Parsing.Append

namespace LetLang

theorem Token.keepsContent_moveDown (n : Nat) : Token.KeepsContent (Token.moveDown n) :=
  ⟨fun _ => rfl, fun _ => rfl, fun _ => rfl⟩

theorem Token.moveDown_zero (t : Token) : t.moveDown 0 = t := by
  simp [moveDown]

theorem Token.moveDown_add (m n : Nat) (t : Token) :
    (t.moveDown m).moveDown n = t.moveDown (m + n) := by
  simp [moveDown, Int.add_assoc]

theorem Stop.map_moveDown_zero (stop : Stop) : stop.map (.moveDown 0) = stop := by
  have hid : Token.moveDown 0 = id := by
    funext t
    exact t.moveDown_zero
  cases stop <;> simp [map, Fault.map, hid]

theorem Stop.map_moveDown (m n : Nat) (stop : Stop) :
    (stop.map (.moveDown m)).map (.moveDown n) = stop.map (.moveDown (m + n)) := by
  have hadd : Token.moveDown n ∘ Token.moveDown m = Token.moveDown (m + n) := by
    funext t
    exact t.moveDown_add m n
  cases stop <;> simp [map, Fault.map, hadd]

theorem Parser.program_moveDown {us : List Token} (h : (program us).2 = []) (n : Nat) :
    program (us.map (.moveDown n)) = (Node.mapAll (.moveDown n) (program us).1, []) := by
  rw [program_map (Token.keepsContent_moveDown n), h]
  rfl

namespace Source
open Piece

theorem reports_eq_nil_iff (text : String) :
    (ofText text).reports = [] ↔ (∀ p ∈ ofSource text.toList, p.error? = none) ∧
      (Parser.program (uncheckedTokens text)).2 = [] := by
  rw [reports, List.append_eq_nil_iff, lexical_eq_nil_iff]
  refine and_congr_right fun hl => ?_
  rw [(parse_of_no_errors hl).2, List.map_eq_nil_iff]

/-- A line without a report and a text without one are a text without one, and its program is that
of the line and that of the text, further down. -/
theorem ofText_append {line text : String} (hl : (ofText (line ++ "\n")).reports = [])
    (ht : (ofText text).reports = []) :
    (ofText (line ++ "\n" ++ text)).reports = [] ∧
      (ofText (line ++ "\n" ++ text)).program = (ofText (line ++ "\n")).program ++
        Node.mapAll (.moveDown (lineFeeds (line ++ "\n").toList)) (ofText text).program := by
  rw [reports_eq_nil_iff] at hl ht ⊢
  -- A line without an error closes its strings, so the pieces of the text are those of both.
  have hclosed : ∀ p ∈ ofSource (line.toList ++ ['\n']), p.IsClosed := by
    rintro _ hp rest rfl
    have he := hl.1 _ (by simpa using hp)
    cases he
  have hpieces : ofSource (line ++ "\n" ++ text).toList =
      ofSource (line ++ "\n").toList ++ ofSource text.toList := by
    simpa using ofSource_append hclosed text.toList
  have htokens : uncheckedTokens (line ++ "\n" ++ text) = uncheckedTokens (line ++ "\n") ++
      (uncheckedTokens text).map (.moveDown (lineFeeds (line ++ "\n").toList)) := by
    rw [uncheckedTokens, hpieces, unchecked_append, texts_ofSource]
    rfl
  have hmoved := Parser.program_moveDown ht.2 (lineFeeds (line ++ "\n").toList)
  have hprogram := Parser.program_append hl.2
    (Parser.not_kwElse_of_clean (congrArg Prod.snd hmoved))
  have herrors : ∀ p ∈ ofSource (line ++ "\n" ++ text).toList, p.error? = none := by
    rw [hpieces]
    exact List.forall_mem_append.2 ⟨hl.1, ht.1⟩
  rw [(parse_of_no_errors herrors).1, (parse_of_no_errors hl.1).1, (parse_of_no_errors ht.1).1,
    htokens, hprogram, hmoved]
  exact ⟨⟨herrors, rfl⟩, rfl⟩

theorem program_of_isEmpty {text : String} (h : (ofText text).isEmpty = true) :
    (ofText text).program = [] := by
  have hl : (tokenize text).tokens.length = 1 := by simpa [isEmpty, ofText] using h
  have ht : (tokenize text).tokens = [.endOfInput (endLine text.toList)] := by
    unfold tokenize at hl ⊢
    dsimp only at hl ⊢
    rw [List.length_append, List.length_singleton, Nat.add_eq_right, List.length_eq_zero_iff] at hl
    rw [hl, List.nil_append]
  rw [ofText, ht]
  rfl

end Source

namespace Session
open Source

/-- The statements of a chunk that are run: none of them if something is wrong with it, unless the
session goes on all the same. -/
def executed (options : Options) (source : Source) : List Node :=
  if source.reports.isEmpty || options.keepGoing then source.program else []

/-- A chunk with no token in it is run like any other, and there is nothing to run. -/
theorem run_eq (options : Options) (w : Workspace) (text : String) :
    let result := interpret options.settings w.environment (executed options (ofText text))
    run options w text =
      ⟨{ result with trace := listing options (ofText text) ++ result.trace },
        ⟨(ofText text).reports, result.reports⟩⟩ := by
  obtain he | he := Bool.eq_false_or_eq_true (ofText text).isEmpty
  · simp only [run, runs, executed, he, program_of_isEmpty he, ite_self, Bool.not_true,
      Bool.false_and, Bool.false_eq_true, if_false]
    rfl
  · obtain hk | hk := Bool.eq_false_or_eq_true
      ((ofText text).reports.isEmpty || options.keepGoing)
    · simp only [run, runs, executed, he, hk, Bool.not_false, Bool.true_and, if_true,
        Workspace.runProgram, Workspace.resetLog]
      generalize interpret _ _ _ = result
      rfl
    · simp only [run, runs, executed, hk, Bool.and_false, Bool.false_eq_true, if_false]
      rfl

section
variable {options : Options} {w : Workspace} {text : String}

theorem executed_of_no_reports (h : (ofText text).reports = []) :
    executed options (ofText text) = (ofText text).program := by
  simp [executed, h]

/-- A chunk without a report is run as a whole, also when there is nothing in it. -/
theorem run_of_no_reports (h : (ofText text).reports = []) :
    run options w text =
      ⟨{ interpret options.settings w.environment (ofText text).program with
          trace := listing options (ofText text) ++
            (interpret options.settings w.environment (ofText text).program).trace },
        ⟨[], (interpret options.settings w.environment (ofText text).program).reports⟩⟩ := by
  rw [run_eq, executed_of_no_reports h, h]

theorem log_of_no_reports (h : (ofText text).reports = []) :
    (run options w text).log = ⟨[], (run options w text).result.reports⟩ := by
  simp only [run_of_no_reports h, RunResult.reports, RunResult.fault?]

/-- A line and a text after it are run one after the other, unless the line stops. -/
theorem run_append {line : String} (hl : (ofText (line ++ "\n")).reports = [])
    (ht : (ofText text).reports = []) (h : (run options w (line ++ "\n")).result.stop = none) :
    (run options w (line ++ "\n" ++ text)).result.environment =
        (run options (run options w (line ++ "\n")).workspace text).result.environment ∧
      (run options w (line ++ "\n" ++ text)).result.output =
        (run options w (line ++ "\n")).result.output ++
          (run options (run options w (line ++ "\n")).workspace text).result.output ∧
      (run options w (line ++ "\n" ++ text)).result.stop =
        (run options (run options w (line ++ "\n")).workspace text).result.stop.map
          (.map (.moveDown (Piece.lineFeeds (line ++ "\n").toList))) := by
  obtain ⟨hr, hp⟩ := ofText_append hl ht
  simp only [run_of_no_reports hl] at h
  simp only [run_of_no_reports hr, run_of_no_reports hl, run_of_no_reports ht, Step.workspace, hp]
  exact interpret_append (Token.keepsContent_moveDown _) h _

theorem run_append_of_stop {line : String} (hl : (ofText (line ++ "\n")).reports = [])
    (ht : (ofText text).reports = []) {stop : Stop}
    (h : (run options w (line ++ "\n")).result.stop = some stop) :
    (run options w (line ++ "\n" ++ text)).result.environment =
        (run options w (line ++ "\n")).result.environment ∧
      (run options w (line ++ "\n" ++ text)).result.output =
        (run options w (line ++ "\n")).result.output ∧
      (run options w (line ++ "\n" ++ text)).result.stop = some stop := by
  obtain ⟨hr, hp⟩ := ofText_append hl ht
  simp only [run_of_no_reports hl] at h
  simp only [run_of_no_reports hr, run_of_no_reports hl, hp, interpret_append_of_stop h, h,
    and_self]

end

/-- The chunks are lines in which nothing is wrong. -/
def AreCleanLines (chunks : List String) : Prop :=
  ∀ s ∈ chunks, (∃ line, s = line ++ "\n") ∧ (ofText s).reports = []

/-- All that was printed in some steps. -/
def outputOf (steps : List Step) : List String := steps.flatMap (·.result.output)

theorem reports_join {chunks : List String} (h : AreCleanLines chunks) {text : String}
    (ht : (ofText text).reports = []) : (ofText (String.join chunks ++ text)).reports = [] := by
  induction chunks with
  | nil => simpa using ht
  | cons s chunks ih =>
    obtain ⟨⟨⟨line, rfl⟩, hl⟩, hchunks⟩ := List.forall_mem_cons.1 h
    rw [String.join_cons, String.append_assoc]
    exact (ofText_append hl (ih hchunks)).1

theorem runAll_cons_of_none {options : Options} {w : Workspace} {s : String} {chunks : List String}
    (h : (run options w s).result.stop = none) :
    runAll options w (s :: chunks) =
      run options w s :: runAll options (run options w s).workspace chunks := by
  rw [runAll, h]

theorem mem_runAll_cons (options : Options) (w : Workspace) (s : String) (chunks : List String) :
    run options w s ∈ runAll options w (s :: chunks) := by
  rw [runAll]
  split
  · exact List.mem_cons_self
  · exact List.mem_cons_self
  · exact List.mem_cons_self

theorem workspaceAfter_cons (w : Workspace) (step : Step) (steps : List Step) :
    workspaceAfter w (step :: steps) = workspaceAfter step.workspace steps := by
  rw [workspaceAfter, List.getLast?_cons, workspaceAfter]
  cases steps.getLast? <;> rfl

/-- Without a stop in the chunks before it, a text is run as it would be in the session. -/
theorem run_join_append {options : Options} {w : Workspace} {chunks : List String}
    (h : AreCleanLines chunks)
    (hs : ∀ step ∈ runAll options w chunks, step.result.stop = none) {text : String}
    (ht : (ofText text).reports = []) :
    (run options w (String.join chunks ++ text)).result.environment =
        (run options (workspaceAfter w (runAll options w chunks)) text).result.environment ∧
      (run options w (String.join chunks ++ text)).result.output =
        outputOf (runAll options w chunks) ++
          (run options (workspaceAfter w (runAll options w chunks)) text).result.output ∧
      (run options w (String.join chunks ++ text)).result.stop =
        (run options (workspaceAfter w (runAll options w chunks)) text).result.stop.map
          (.map (.moveDown (Piece.lineFeeds (String.join chunks).toList))) := by
  -- On the chunks, for any workspace, since the first one changes it for the others.
  induction chunks generalizing w with
  | nil =>
    have hid : Stop.map (.moveDown 0) = id := by
      funext stop
      exact Stop.map_moveDown_zero stop
    refine ⟨by simp [runAll, workspaceAfter], by simp [runAll, workspaceAfter, outputOf], ?_⟩
    simp [runAll, workspaceAfter, Piece.lineFeeds, hid]
  | cons s chunks ih =>
    obtain ⟨⟨⟨line, rfl⟩, hl⟩, hchunks⟩ := List.forall_mem_cons.1 h
    have hfirst : (run options w (line ++ "\n")).result.stop = none :=
      hs _ (mem_runAll_cons options w _ chunks)
    rw [runAll_cons_of_none hfirst, List.forall_mem_cons] at hs
    obtain ⟨henv, hout, hstop⟩ := run_append hl (reports_join hchunks ht) hfirst
    obtain ⟨ihenv, ihout, ihstop⟩ := ih hchunks hs.2
    -- A fault is moved down by the first line, and by the lines after it in the hypothesis.
    have hfeeds : Piece.lineFeeds (String.join ((line ++ "\n") :: chunks)).toList =
        Piece.lineFeeds (String.join chunks).toList + Piece.lineFeeds (line ++ "\n").toList := by
      rw [String.join_cons, String.toList_append, Piece.lineFeeds, List.count_append, Nat.add_comm]
      rfl
    rw [runAll_cons_of_none hfirst, workspaceAfter_cons, hfeeds, String.join_cons, String.append_assoc]
    refine ⟨henv.trans ihenv, ?_, ?_⟩
    · rw [hout, ihout, outputOf, outputOf, List.flatMap_cons, List.append_assoc]
    · rw [hstop, ihstop, Option.map_map]
      exact congrArg (fun g => Option.map g _) (funext (Stop.map_moveDown _ _))

/-- Lines that are run one after another print what their whole text prints, and leave the same
variables. The first fault on the way is that of the whole text, which has it further down by the
lines before. -/
theorem run_join (options : Options) (w : Workspace) {chunks : List String}
    (h : AreCleanLines chunks) :
    ((∀ step ∈ runAll options w chunks, step.result.stop = none) →
      (run options w (String.join chunks)).log = .empty ∧
      (run options w (String.join chunks)).result.stop = none ∧
      (run options w (String.join chunks)).result.output = outputOf (runAll options w chunks) ∧
      (run options w (String.join chunks)).result.environment =
        (workspaceAfter w (runAll options w chunks)).environment) ∧
    ∀ before s after fault, chunks = before ++ s :: after →
      (∀ step ∈ runAll options w before, step.result.stop = none) →
      (run options (workspaceAfter w (runAll options w before)) s).result.stop =
        some (.fault fault) →
      (run options w (String.join chunks)).log.errors = [] ∧
      (run options w (String.join chunks)).result.stop =
        some (.fault (fault.map (.moveDown ((String.join before).toList.count '\n')))) ∧
      (run options w (String.join chunks)).result.output =
        outputOf (runAll options w before) ++
          (run options (workspaceAfter w (runAll options w before)) s).result.output ∧
      (run options w (String.join chunks)).result.environment =
        (run options (workspaceAfter w (runAll options w before)) s).result.environment := by
  have hempty : (ofText "").reports = [] := rfl
  have hclean := reports_join h hempty
  rw [String.append_empty] at hclean
  constructor
  · intro hs
    -- behind the last line stands a text with nothing in it
    obtain ⟨henv, hout, hstop⟩ := run_join_append h hs hempty
    rw [String.append_empty] at henv hout hstop
    have hprogram : (ofText "").program = [] := rfl
    rw [run_of_no_reports hempty, hprogram] at henv hout hstop
    have hstop : (run options w (String.join chunks)).result.stop = none := hstop
    refine ⟨?_, hstop, hout.trans (List.append_nil _), henv⟩
    rw [log_of_no_reports hclean, RunResult.reports, RunResult.fault?, hstop]
    rfl
  · rintro before s after fault rfl hs hfault
    obtain ⟨hbefore, hrest⟩ := List.forall_mem_append.1 h
    obtain ⟨⟨⟨line, rfl⟩, hl⟩, hafter⟩ := List.forall_mem_cons.1 hrest
    have hjoin : String.join (before ++ (line ++ "\n") :: after) =
        String.join before ++ (line ++ "\n" ++ String.join after) := by
      simp
    have htail := reports_join hafter hempty
    rw [String.append_empty] at htail
    obtain ⟨henv, hout, hstop⟩ := run_join_append hbefore hs (ofText_append hl htail).1
    obtain ⟨henv', hout', hstop'⟩ := run_append_of_stop hl htail hfault
    rw [← hjoin] at henv hout hstop
    refine ⟨by rw [log_of_no_reports hclean], ?_, by rw [hout, hout'], henv.trans henv'⟩
    rw [hstop, hstop']
    rfl

/-- The second of two lines has a fault. -/
theorem run_join_second_line :
    AreCleanLines ["print 1;\n", "print -true;\n"] ∧
    (run ⟨⟨100, 100, 0⟩, false⟩ .empty "print 1;\nprint -true;\n").result.stop =
      some (.fault ⟨some ⟨.minus, .str "-", .null, 2⟩, .operandNotNumber⟩) ∧
    (run ⟨⟨100, 100, 0⟩, false⟩ .empty "print 1;\nprint -true;\n").result.output = ["1"] := by
  have h : AreCleanLines ["print 1;\n", "print -true;\n"] := by
    refine List.forall_mem_cons.2 ⟨⟨⟨"print 1;", rfl⟩, by decide +kernel⟩, ?_⟩
    exact List.forall_mem_singleton.2 ⟨⟨"print -true;", rfl⟩, by decide +kernel⟩
  have hs : ∀ step ∈ runAll ⟨⟨100, 100, 0⟩, false⟩ .empty ["print 1;\n"],
      step.result.stop = none := by decide +kernel
  have hf : (run ⟨⟨100, 100, 0⟩, false⟩ (workspaceAfter .empty
      (runAll ⟨⟨100, 100, 0⟩, false⟩ .empty ["print 1;\n"])) "print -true;\n").result.stop =
      some (.fault ⟨some ⟨.minus, .str "-", .null, 1⟩, .operandNotNumber⟩) := by decide +kernel
  have ho : outputOf (runAll ⟨⟨100, 100, 0⟩, false⟩ .empty ["print 1;\n"]) ++
      (run ⟨⟨100, 100, 0⟩, false⟩ (workspaceAfter .empty
        (runAll ⟨⟨100, 100, 0⟩, false⟩ .empty ["print 1;\n"])) "print -true;\n").result.output =
      ["1"] := by decide +kernel
  obtain ⟨-, hstop, hout, -⟩ := (run_join ⟨⟨100, 100, 0⟩, false⟩ .empty h).2
    ["print 1;\n"] "print -true;\n" [] _ rfl hs hf
  have hline : Fault.map (.moveDown ((String.join ["print 1;\n"]).toList.count '\n'))
      ⟨some ⟨.minus, .str "-", .null, 1⟩, .operandNotNumber⟩ =
      ⟨some ⟨.minus, .str "-", .null, 2⟩, .operandNotNumber⟩ := by decide +kernel
  have htext : String.join ["print 1;\n", "print -true;\n"] = "print 1;\nprint -true;\n" := by
    decide +kernel
  rw [htext] at hstop hout
  rw [hline] at hstop
  exact ⟨h, hstop, hout.trans ho⟩

end Session

end LetLang
