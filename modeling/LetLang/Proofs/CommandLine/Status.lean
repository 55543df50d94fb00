import LetLang.Proofs.CommandLine.EmittedTree
import LetLang.Proofs.Execution.DepthLimit

namespace LetLang

theorem Console.text_eq_empty_iff {lines : List String} : Console.text lines = "" ↔ lines = [] := by
  constructor
  · intro h
    cases lines with
    | nil => rfl
    | cons line lines =>
      have hl := congrArg String.length h
      rw [Console.text, List.map_cons, String.join_cons, String.length_append,
        String.length_append] at hl
      have : "\n".length = 1 := rfl
      have : "".length = 0 := rfl
      omega
  · rintro rfl
    rfl

namespace CommandLine

/-- A status that the response has is 1 if there is something on the error stream and 0 if not. -/
def Response.IsTruthful (r : Response) : Prop :=
  ∀ code, r.exit = .status code → code = if r.stderr = "" then 0 else 1

theorem isTruthful_refused {lines : List String} (h : lines ≠ []) : (refused lines).IsTruthful := by
  intro code hc
  cases hc
  rw [refused, if_neg (mt Console.text_eq_empty_iff.1 h)]

theorem isTruthful_failedWith (f : Failure) : (failedWith f).IsTruthful := by
  intro code hc
  cases hc

/-- A status that is taken from a list of reports, all of which are shown. -/
theorem isTruthful_reporting (reports : List Report) (stdout : String)
    (written : List (String × String)) :
    (Response.mk (.status (if reports.isEmpty then 0 else 1)) stdout
      (Console.text (reports.map Console.reportLine)) written).IsTruthful := by
  intro code hc
  cases hc
  simp only [Console.text_eq_empty_iff, List.map_eq_nil_iff, List.isEmpty_iff]

theorem isTruthful_ofStep {step : Step} (hl : step.log.runtimeErrors = step.result.reports)
    (hs : step.result.stop ≠ some .tooDeep) (verbosity : Nat) :
    (ofStep verbosity step).IsTruthful := by
  intro code hc
  have hshown : (ofStep verbosity step).stderr = "" ↔
      step.log.errors = [] ∧ step.result.reports = [] := by
    rw [ofStep, Console.text_eq_empty_iff, Console.logLines, List.append_eq_nil_iff,
      List.map_eq_nil_iff, List.map_eq_nil_iff, hl]
  simp only [hshown]
  rw [ofStep] at hc
  dsimp only at hc
  -- A status comes of a run that ended or had a fault; the other stops end with something else.
  cases hstop : step.result.stop with
  | none =>
    have hr : step.result.reports = [] := by
      rw [RunResult.reports, RunResult.fault?, hstop]
      rfl
    rw [hstop, exitOf] at hc
    cases hc
    simp [hr, Log.hadError]
  | some stop =>
    rw [hstop] at hc hs
    cases stop with
    | fault f =>
      have hr : step.result.reports = [f.report] := by
        rw [RunResult.reports, RunResult.fault?, hstop]
        rfl
      cases hc
      simp [hr]
    | tooDeep => exact absurd rfl hs
    | breakdown b => cases hc
    | tooLong => cases hc

theorem isTruthful_withSource {files : Files} {path : String}
    {answer : String → String → Response} (h : ∀ path text, (answer path text).IsTruthful) :
    (withSource files path answer).IsTruthful := by
  unfold withSource
  dsimp only
  split
  · exact isTruthful_failedWith _
  · split
    · exact isTruthful_refused (List.cons_ne_nil _ _)
    · exact h _ _

theorem isTruthful_listTokens (source : String) : (listTokens source).IsTruthful :=
  isTruthful_reporting _ _ _

theorem isTruthful_emitAst (files : Files) (path source : String) :
    (emitAst files path source).IsTruthful := by
  unfold emitAst
  dsimp only
  split
  · next h =>
    refine isTruthful_refused fun hn => ?_
    rw [List.map_eq_nil_iff] at hn
    simp [hn] at h
  · split
    · exact isTruthful_failedWith _
    · exact isTruthful_reporting [] _ _

theorem isTruthful_runTree (settings : Settings) (program : List Node) :
    (runTree settings program).IsTruthful :=
  isTruthful_ofStep (List.nil_append _) (interpret_stop_ne_tooDeep _ _ _) _

theorem isTruthful_runAst (settings : Settings) (text : String) :
    (runAst settings text).IsTruthful := by
  unfold runAst
  split
  · exact isTruthful_failedWith _
  · split
    · exact isTruthful_failedWith _
    · exact isTruthful_runTree _ _

theorem isTruthful_runStrict (settings : Settings) (source : String) :
    (runStrict settings source).IsTruthful := by
  unfold runStrict
  split
  · exact isTruthful_refused (List.cons_ne_nil _ _)
  · exact isTruthful_runTree _ _

theorem isTruthful_runProgram (options : Session.Options) (source : String) :
    (runProgram options source).IsTruthful := by
  rw [runProgram, Session.run_eq]
  exact isTruthful_ofStep rfl (interpret_stop_ne_tooDeep _ _ _) _

theorem isTruthful_runPrompt (options : Session.Options) (input : String) :
    (runPrompt options input).IsTruthful := by
  intro code hc
  unfold runPrompt at hc
  dsimp only at hc
  split at hc
  · cases hc
  · cases hc
  · cases hc
    rfl

theorem isTruthful_respondTo (limits : Limits) (files : Files) (input : String)
    (c : Collected) : (respondTo limits files input c).IsTruthful := by
  unfold respondTo
  dsimp only
  split
  · exact isTruthful_withSource fun _ => isTruthful_listTokens
  · exact isTruthful_withSource (isTruthful_emitAst files)
  · exact isTruthful_withSource fun _ => isTruthful_runAst _
  · refine isTruthful_withSource fun _ text => ?_
    split
    · exact isTruthful_runStrict _ text
    · exact isTruthful_runProgram _ text
  · exact isTruthful_runPrompt _ _

/-- Either there is no text to answer for, or the answer is that for the text of the file. -/
theorem withSource_cases (files : Files) (path : String)
    (answer : String → String → Response) :
    (∃ f, withSource files path answer = failedWith f) ∨
      withSource files path answer = notFound (normalPath path) ∨
      ∃ text, LeadsTo files path text ∧
        withSource files path answer = answer (normalPath path) (textRead text) := by
  unfold withSource
  dsimp only
  split
  · exact .inl ⟨_, rfl⟩
  · next hopens =>
    split
    · exact .inr (.inl rfl)
    · next text htext => exact .inr (.inr ⟨text, ⟨hopens, htext⟩, rfl⟩)

theorem written_emitAst {files : Files} {path source : String} {code : Nat}
    (he : (emitAst files path source).exit = .status code) :
    (emitAst files path source).written =
      if code = 0 then [(emittedPath path, emittedDocument source)] else [] := by
  unfold emitAst at he ⊢
  dsimp only at he ⊢
  split at he
  · next hr =>
    cases he
    rw [if_pos hr]
    rfl
  · next hr =>
    split at he
    · cases he
    · cases he
      rw [if_neg hr]
      rfl

/-- A document is written for a file exactly if the status is 0, and nothing else is. -/
theorem written_withSource_emitAst {files : Files} {path : String} {code : Nat}
    (he : (withSource files path (emitAst files)).exit = .status code) :
    (code = 0 → ∃ text, LeadsTo files path text ∧ (withSource files path (emitAst files)).written =
        [(emittedPath (normalPath path), emittedDocument (textRead text))]) ∧
      (code ≠ 0 → (withSource files path (emitAst files)).written = []) := by
  obtain ⟨f, hf⟩ | hn | ⟨text, ht, ha⟩ := withSource_cases files path (emitAst files)
  · rw [hf] at he
    cases he
  · rw [hn] at he ⊢
    cases he
    exact ⟨nofun, fun _ => rfl⟩
  · rw [ha] at he ⊢
    rw [written_emitAst he]
    exact ⟨fun hc => ⟨text, ht, if_pos hc⟩, fun hc => if_neg hc⟩

/-- What is reported on a text before any of it is run. -/
def staticReports (strict : Bool) (source : String) : List Report :=
  if strict then
    match Strict.parse source with
    | .error report => [report]
    | .ok _ => []
  else (Source.ofText source).reports

theorem runStrict_of_staticReports {source : String} (h : staticReports true source ≠ [])
    (settings : Settings) :
    runStrict settings source = refused ((staticReports true source).map Console.reportLine) := by
  rw [staticReports, if_pos rfl] at h ⊢
  unfold runStrict
  cases hp : Strict.parse source with
  | error report => rfl
  | ok program =>
    rw [hp] at h
    exact absurd rfl h

theorem runProgram_of_staticReports {source : String} (h : staticReports false source ≠ [])
    (settings : Settings) :
    runProgram ⟨settings, false⟩ source =
      ⟨.status 1, "", Console.text ((staticReports false source).map Console.reportLine),
        traceFiles settings.verbosity
          (Session.listing ⟨settings, false⟩ (Source.ofText source))⟩ := by
  rw [staticReports, if_neg Bool.false_ne_true] at h ⊢
  have hn : Session.executed ⟨settings, false⟩ (Source.ofText source) = [] := by
    rw [Session.executed, Bool.or_false, if_neg (by simpa using h)]
  have hempty : interpret settings .empty [] = ⟨.empty, [], [], none⟩ := rfl
  have hshown : Log.hadError ⟨(Source.ofText source).reports, []⟩ = true := by
    simpa [Log.hadError] using h
  rw [runProgram, Session.run_eq, hn]
  simp only [Workspace.empty, hempty, List.append_nil]
  rw [ofStep, RunResult.reports, RunResult.fault?, exitOf, Console.logLines]
  simp only [hshown, if_true, Option.toList_none, List.map_nil, List.append_nil]
  rfl

section
variable {limits : Limits} {files : Files} {input : String}
  {args : List String} {c : Collected} (ha : readArguments args = some c)
include ha

theorem respond_eq_respondTo (hh : c.help = false) :
    respond limits files input args = respondTo limits files input c := by
  simp [respond, ha, hh]

theorem isTruthful_respond : (respond limits files input args).IsTruthful := by
  cases hh : c.help with
  | false =>
    rw [respond_eq_respondTo ha hh]
    exact isTruthful_respondTo limits files input c
  | true =>
    intro code hc
    simp only [respond, ha, hh, if_true] at hc ⊢
    cases hc
    rfl

/-- In a run that does not keep going, reports on the text are all that comes of it. -/
theorem respond_of_staticReports {path text : String} (hh : c.help = false)
    (hm : c.mode = .runProgram path) (hf : LeadsTo files path text)
    (hk : c.strict = true ∨ c.keepGoing = false)
    (hr : staticReports c.strict (textRead text) ≠ []) :
    (respond limits files input args).stdout = "" ∧
      (respond limits files input args).stderr =
        Console.text ((staticReports c.strict (textRead text)).map Console.reportLine) ∧
      (respond limits files input args).written ⊆ traceFiles c.verbosity
        (Session.listing ⟨⟨limits.depth, limits.passes, c.verbosity⟩, c.keepGoing⟩
          (Source.ofText (textRead text))) := by
  rw [respond_eq_respondTo ha hh, respondTo, hm]
  dsimp only
  rw [hf.withSource]
  cases hs : c.strict with
  | true =>
    rw [hs] at hr
    rw [if_pos (rfl : true = true), runStrict_of_staticReports hr]
    dsimp only [refused]
    exact ⟨rfl, rfl, List.nil_subset _⟩
  | false =>
    have hkeep : c.keepGoing = false := hk.resolve_left (by rw [hs]; exact Bool.false_ne_true)
    rw [hs] at hr
    rw [if_neg Bool.false_ne_true, hkeep, runProgram_of_staticReports hr]
    dsimp only
    exact ⟨rfl, rfl, List.Subset.refl _⟩

end

/-- For arguments that are understood and a run that ends with a status, the status is 1 if
anything was written to the error stream, and 0 if not. The document of a program is written exactly
if the status is 0, and no file is touched otherwise. A program with errors in its text is not
run, unless it is to be kept going: nothing is printed, only the errors are reported, and a trace
shows no statement. -/
theorem respond_status (limits : Limits) (files : Files) (input : String)
    {args : List String} {c : Collected} (ha : readArguments args = some c) {code : Nat}
    (he : (respond limits files input args).exit = .status code) :
    let r := respond limits files input args
    code = (if r.stderr = "" then 0 else 1) ∧
      (∀ path, c.help = false → c.mode = .emitAst path →
        (code = 0 → ∃ text, LeadsTo files path text ∧
          r.written = [(emittedPath (normalPath path), emittedDocument (textRead text))]) ∧
        (code ≠ 0 → r.written = [] ∧ filesAfter files r = files)) ∧
      ∀ path text, c.help = false → c.mode = .runProgram path → LeadsTo files path text →
        (c.strict = true ∨ c.keepGoing = false) →
        staticReports c.strict (textRead text) ≠ [] →
        r.stdout = "" ∧
          r.stderr =
            Console.text ((staticReports c.strict (textRead text)).map Console.reportLine) ∧
          r.written ⊆ traceFiles c.verbosity
            (Session.listing ⟨⟨limits.depth, limits.passes, c.verbosity⟩, c.keepGoing⟩
              (Source.ofText (textRead text))) := by
  intro r
  refine ⟨isTruthful_respond ha code he, fun path hh hm => ?_,
    fun path text hh hm hf hk hr => respond_of_staticReports ha hh hm hf hk hr⟩
  have hr : r = withSource files path (emitAst files) := by
    rw [show r = _ from respond_eq_respondTo ha hh, respondTo, hm]
  have he' : r.exit = .status code := he
  rw [hr] at he' ⊢
  obtain ⟨hwritten, huntouched⟩ := written_withSource_emitAst he'
  refine ⟨hwritten, fun hc => ⟨huntouched hc, ?_⟩⟩
  rw [filesAfter, huntouched hc]
  rfl

/-- Of two statements the second one is malformed: neither is run, and no tree is written. -/
theorem respond_status_malformed :
    let files := Files.ofTexts fun _ => some "print 1; print ;"
    let run := respond ⟨100, 100⟩ files "" ["a"]
    let emit := respond ⟨100, 100⟩ files "" ["--emit-ast", "a"]
    run.exit = .status 1 ∧ run.stderr ≠ "" ∧ run.stdout = "" ∧
      emit.exit = .status 1 ∧ emit.stderr ≠ "" ∧ filesAfter files emit = files := by
  intro files run emit
  obtain ⟨c, hc, hm, hh, -, hs, hk⟩ : AskOnlyFor (.runProgram "a") ["a"] :=
    askOnlyFor_runProgram (by decide) (by decide)
  obtain ⟨d, hd, hem, heh, -⟩ : AskOnlyFor (.emitAst "a") ["--emit-ast", "a"] :=
    askOnlyFor_emitAst (by decide) (by decide)
  have hf : LeadsTo files "a" "print 1; print ;" := ⟨by decide +kernel, rfl⟩
  have hrun : run.exit = .status 1 := by decide +kernel
  have hemit : emit.exit = .status 1 := by decide +kernel
  have hr : staticReports c.strict (textRead "print 1; print ;") ≠ [] := by
    rw [hs]
    decide +kernel
  obtain ⟨hcode, -, hstatic⟩ := respond_status ⟨100, 100⟩ files "" hc hrun
  obtain ⟨hcode', hwritten, -⟩ := respond_status ⟨100, 100⟩ files "" hd hemit
  have hshown (stderr : String) (h : 1 = if stderr = "" then 0 else 1) : stderr ≠ "" := by
    rintro rfl
    exact absurd h (by decide)
  exact ⟨hrun, hshown _ hcode, (hstatic "a" _ hh hm hf (.inr hk) hr).1, hemit, hshown _ hcode',
    ((hwritten "a" heh hem).2 Nat.one_ne_zero).2⟩

end CommandLine
end LetLang
