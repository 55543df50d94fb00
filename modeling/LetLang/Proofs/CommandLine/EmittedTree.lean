import LetLang.Proofs.CommandLine.Paths
import LetLang.Proofs.Document.Codec
import LetLang.Proofs.Session.Chunks

namespace LetLang.CommandLine

/-- What is read from a file that holds the text. -/
def textRead (text : String) : String := String.ofList (unifyLineEnds text.toList)

theorem unifyLineEnds_of_not_mem {cs : List Char} (h : '\r' ∉ cs) : unifyLineEnds cs = cs := by
  induction cs with
  | nil => rfl
  | cons c cs ih =>
    obtain ⟨hc, hcs⟩ := not_or.1 (mt List.mem_cons.2 h)
    rw [unifyLineEnds, ih hcs]
    · rintro _ rfl
      exact absurd rfl hc
    · rintro rfl
      exact absurd rfl hc

/-- The path leads to a file with the text. -/
structure LeadsTo (files : Files) (path text : String) : Prop where
  opens : files.refusal? (normalPath path) = none
  found : files.text (normalPath path) = some text

theorem LeadsTo.withSource {files : Files} {path text : String} (h : LeadsTo files path text)
    (respond : String → String → Response) :
    withSource files path respond = respond (normalPath path) (textRead text) := by
  simp [CommandLine.withSource, h.opens, h.found, textRead]

/-- A path that the system opens leads below some directory. -/
theorem LeadsTo.descends {files : Files} {path text : String} (h : LeadsTo files path text) :
    (stepsDown (normalPath path)).isEmpty = false := by
  have hopens := h.opens
  unfold Files.refusal? at hopens
  split at hopens
  · cases hopens
  · split at hopens
    · cases hopens
    · next hn => exact (Bool.or_eq_false_iff.1 (Bool.eq_false_iff.2 hn)).1

/-- The files after a response. -/
def filesAfter (files : Files) (r : Response) : Files :=
  { files with text := fun path => (r.written.lookup path).or (files.text path) }

theorem meetsLongStep_filesAfter (files : Files) (r : Response) (before : String)
    (steps : List String) :
    (filesAfter files r).meetsLongStep before steps = files.meetsLongStep before steps := by
  induction steps generalizing before with
  | nil => rfl
  | cons step steps ih => rw [Files.meetsLongStep, Files.meetsLongStep, ih, filesAfter]

/-- A response writes texts, so what the system opens stays the same. -/
theorem refusal?_filesAfter (files : Files) (r : Response) (path : String) :
    (filesAfter files r).refusal? path = files.refusal? path := by
  rw [Files.refusal?, Files.refusal?, Files.isTooLong, Files.isTooLong, meetsLongStep_filesAfter,
    filesAfter]

/-- The arguments ask for one thing, without any option beside it. -/
def AskOnlyFor (mode : Mode) (args : List String) : Prop :=
  ∃ c, readArguments args = some c ∧ c.mode = mode ∧ c.help = false ∧ c.verbosity = 0 ∧
    c.strict = false ∧ c.keepGoing = false

section
variable {path : String} (hn : path ≠ "") (hd : path.toList.head? ≠ some '-')
include hd

theorem items_of_head? : items path = some [.positional path] := by
  unfold items
  split
  · next h => exact absurd (congrArg List.head? h) hd
  · next h => exact absurd (congrArg List.head? h) hd
  · rfl

theorem ne_dashes : path ≠ "--" := by
  rintro rfl
  exact hd rfl

theorem askOnlyFor_file (flag : Flag) {option : String} {mode : Mode} (ho : option ≠ "--")
    (hi : items option = some [.option flag none]) (hf : flag.takesFile = true)
    (hm : Collected.mode { Collected.none with file := some (flag, path) } = mode) :
    AskOnlyFor mode [option, path] := by
  refine ⟨{ Collected.none with file := some (flag, path) }, ?_, hm, rfl, rfl, rfl, rfl⟩
  simp [readArguments, splitDashes, ho, ne_dashes hd, items_of_head? hd, hi, collect, hf,
    Collected.setFile, Collected.none]

include hn

theorem askOnlyFor_runProgram : AskOnlyFor (.runProgram path) [path] := by
  refine ⟨{ Collected.none with program := some path, programIsLast := true }, ?_, ?_⟩
  · simp [readArguments, splitDashes, ne_dashes hd, items_of_head? hd, collect,
      Collected.setProgram, Collected.none]
  · simp [Collected.mode, Collected.none, hn]

theorem askOnlyFor_emitAst : AskOnlyFor (.emitAst path) ["--emit-ast", path] :=
  askOnlyFor_file hd .emitAst (by decide) (by decide +kernel) rfl (by simp [Collected.mode, hn])

theorem askOnlyFor_runAst : AskOnlyFor (.runAst path) ["--ast", path] :=
  askOnlyFor_file hd .ast (by decide) (by decide +kernel) rfl (by simp [Collected.mode, hn])

end

section
variable {limits : Limits} {files : Files} {args : List String} {path text : String}

theorem respond_runProgram (ha : AskOnlyFor (.runProgram path) args)
    (hf : LeadsTo files path text) (input : String) :
    respond limits files input args =
      runProgram ⟨⟨limits.depth, limits.passes, 0⟩, false⟩ (textRead text) := by
  obtain ⟨c, hc, hm, hh, hv, hs, hk⟩ := ha
  simp [respond, respondTo, hc, hm, hh, hv, hs, hk, hf.withSource]

theorem respond_emitAst (ha : AskOnlyFor (.emitAst path) args) (hf : LeadsTo files path text)
    (input : String) :
    respond limits files input args = emitAst files (normalPath path) (textRead text) := by
  obtain ⟨c, hc, hm, hh, -⟩ := ha
  simp [respond, respondTo, hc, hm, hh, hf.withSource]

theorem respond_runAst (ha : AskOnlyFor (.runAst path) args) (hf : LeadsTo files path text)
    (input : String) :
    respond limits files input args =
      runAst ⟨limits.depth, limits.passes, 0⟩ (textRead text) := by
  obtain ⟨c, hc, hm, hh, hv, -⟩ := ha
  simp [respond, respondTo, hc, hm, hh, hv, hf.withSource]

end

/-- The document that is written for a source. -/
def emittedDocument (source : String) : String :=
  (Document.ofProgram (Source.ofText source).program).indented

section
variable {source : String}

theorem runAst_emitted (hl : Number.InRange (1 + source.toList.count '\n')) (settings : Settings) :
    runAst settings (textRead (emittedDocument source)) =
      runTree settings (Source.ofText source).program := by
  have hp := Document.isPlain_ofText hl
  have hread := unifyLineEnds_of_not_mem (Json.return_not_mem_indented hp)
  rw [emittedDocument, textRead, hread, String.ofList_toList, runAst, Json.read_indented hp]
  dsimp only
  rw [Document.program_ofText]

/-- Without a trace, a text in which nothing is wrong is run as its tree is. -/
theorem runProgram_eq_runTree (hr : (Source.ofText source).reports = []) (depth passes : Nat)
    (keepGoing : Bool) :
    runProgram ⟨⟨depth, passes, 0⟩, keepGoing⟩ source =
      runTree ⟨depth, passes, 0⟩ (Source.ofText source).program := by
  rw [runProgram, Session.run_of_no_reports hr, runTree, Workspace.runProgram]
  -- both sides pass the result on, whatever it is
  generalize interpret _ _ _ = result
  rfl

end

/-- The path of a document leads below some directory, so it is refused for its length or because
there is a directory already. -/
theorem refusal?_emittedPath {files : Files} {path text : String} (h : LeadsTo files path text) :
    files.refusal? (emittedPath (normalPath path)) =
      if files.isTooLong (emittedPath (normalPath path)) then
        some (.longPath (emittedPath (normalPath path)))
      else if files.isDirectory (emittedPath (normalPath path)) then
        some (.directory (emittedPath (normalPath path)))
      else none := by
  rw [Files.refusal?, (normalPath_emittedPath h.descends).2, Bool.false_or]

theorem emitAst_of_no_reports {files : Files} {path text : String} (hf : LeadsTo files path text)
    (hr : (Source.ofText (textRead text)).reports = []) :
    emitAst files (normalPath path) (textRead text) =
      if files.isTooLong (emittedPath (normalPath path)) then
        failedWith (.longPath (emittedPath (normalPath path)))
      else if files.isDirectory (emittedPath (normalPath path)) then
        failedWith (.directory (emittedPath (normalPath path)))
      else
        ⟨.status 0, emittedPath (normalPath path) ++ "\n", "",
          [(emittedPath (normalPath path), emittedDocument (textRead text))]⟩ := by
  rw [emitAst]
  simp only [hr, List.isEmpty_nil, Bool.not_true, Bool.false_eq_true, if_false,
    refusal?_emittedPath hf]
  cases files.isTooLong (emittedPath (normalPath path)) with
  | true => rfl
  | false =>
    cases files.isDirectory (emittedPath (normalPath path)) with
    | true => rfl
    | false => simp [Console.text, emittedDocument]

/-- For a file with a program in which nothing is wrong, a document is written next to it, unless
its path is too long or leads to a directory. Running the document, wherever it is kept, has the
exit, the output and the reports of running the program, if its lines can be written as numbers. -/
theorem respond_emitted (limits : Limits) {files : Files} {path text : String}
    (hf : LeadsTo files path text) (hr : (Source.ofText (textRead text)).reports = [])
    (hl : Number.InRange (1 + (textRead text).toList.count '\n')) {emitArgs runArgs : List String}
    (he : AskOnlyFor (.emitAst path) emitArgs) (hd : AskOnlyFor (.runProgram path) runArgs)
    (input : String) :
    let emit := respond limits files input emitArgs
    let out := emittedPath (normalPath path)
    let document := emittedDocument (textRead text)
    emit =
        (if files.isTooLong out then failedWith (.longPath out)
        else if files.isDirectory out then failedWith (.directory out)
        else ⟨.status 0, out ++ "\n", "", [(out, document)]⟩) ∧
      (emit.exit = .status 0 → LeadsTo (filesAfter files emit) out document) ∧
      ∀ files' astPath astArgs input', LeadsTo files' astPath document →
        AskOnlyFor (.runAst astPath) astArgs →
        respond limits files' input' astArgs = respond limits files input runArgs := by
  intro emit out document
  have hemit : emit = _ := (respond_emitAst he hf input).trans (emitAst_of_no_reports hf hr)
  refine ⟨hemit, fun hexit => ?_, ?_⟩
  · by_cases hlong : files.isTooLong out = true
    · rw [hemit, if_pos hlong] at hexit
      cases hexit
    by_cases hdirectory : files.isDirectory out = true
    · rw [hemit, if_neg hlong, if_pos hdirectory] at hexit
      cases hexit
    -- the path that is printed is read again as it stands
    have hpath : normalPath out = out := (normalPath_emittedPath hf.descends).1
    constructor
    · rw [hpath, refusal?_filesAfter, refusal?_emittedPath hf, if_neg hlong, if_neg hdirectory]
    · rw [hpath, hemit, if_neg hlong, if_neg hdirectory]
      show (List.lookup out [(out, document)]).or (files.text out) = some document
      rw [List.lookup_cons_self, Option.some_or]
  · -- both runs are those of the parsed statements
    intro files' astPath astArgs input' hf' ha
    rw [respond_runAst ha hf', respond_runProgram hd hf, runAst_emitted hl,
      runProgram_eq_runTree hr]

/-- A string that is written with escapes, and a fault on the second line. -/
theorem respond_emitted_escapes :
    let files := Files.ofTexts fun _ => some "print \"\\\t\u00e9\";\nprint -true;\n"
    respond ⟨100, 100⟩ (filesAfter files (respond ⟨100, 100⟩ files "" ["--emit-ast", "a"])) ""
        ["--ast", "a.ast.json"] =
      ⟨.status 1, "\\\t\u00e9\n", "line 2: Operand must be a number.\n", []⟩ := by
  intro files
  have ht : textRead "print \"\\\t\u00e9\";\nprint -true;\n" =
      "print \"\\\t\u00e9\";\nprint -true;\n" := by decide +kernel
  have hf : LeadsTo files "a" "print \"\\\t\u00e9\";\nprint -true;\n" :=
    ⟨by decide +kernel, rfl⟩
  have hr : (Source.ofText (textRead "print \"\\\t\u00e9\";\nprint -true;\n")).reports = [] := by
    rw [ht]
    decide +kernel
  have hl : Number.InRange
      (1 + (textRead "print \"\\\t\u00e9\";\nprint -true;\n").toList.count '\n') := by
    rw [ht]
    exact (Number.inRange_iff_length _).2 (by decide +kernel)
  have hrun : respond ⟨100, 100⟩ files "" ["a"] =
      ⟨.status 1, "\\\t\u00e9\n", "line 2: Operand must be a number.\n", []⟩ := by decide +kernel
  have hpath : emittedPath (normalPath "a") = "a.ast.json" := by decide +kernel
  obtain ⟨-, hleads, hsame⟩ := respond_emitted ⟨100, 100⟩ hf hr hl
    (askOnlyFor_emitAst (by decide) (by decide)) (askOnlyFor_runProgram (by decide) (by decide)) ""
  have hdoc := hleads (by decide +kernel)
  rw [hpath] at hdoc
  rw [← hrun]
  exact hsame _ _ _ _ hdoc (askOnlyFor_runAst (by decide) (by decide))

end LetLang.CommandLine
