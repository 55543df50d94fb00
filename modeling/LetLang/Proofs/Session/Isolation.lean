import LetLang.Proofs.Session.Verbosity

namespace LetLang.Session
open Source

/-- A session keeps to runtime values, chunk after chunk. -/
theorem workspaceAfter_holds (options : Options) {start : Workspace}
    (h : start.environment.Holds Value.IsRuntime) (chunks : List String) :
    (workspaceAfter start (runAll options start chunks)).environment.Holds Value.IsRuntime := by
  induction chunks generalizing start with
  | nil => exact h
  | cons text chunks ih =>
    have hw := run_holds options h text
    rw [runAll]
    split
    · rw [workspaceAfter_cons]
      exact ih hw
    · rw [workspaceAfter_cons]
      exact ih hw
    · rw [workspaceAfter_cons]
      exact hw

theorem executed_of_reports {options : Options} {source : Source} (h : source.reports ≠ [])
    (hk : options.keepGoing = false) : executed options source = [] := by
  simp [executed, h, hk]

theorem executed_of_runs {options : Options} {source : Source}
    (h : source.reports = [] ∨ options.keepGoing = true) :
    executed options source = source.program := by
  obtain h | h := h
  · simp [executed, h]
  · simp [executed, h]

/-- Whatever a session has run before, its next chunk is reported with what is wrong with the text
and with the fault of its run, in this order. With something wrong it does nothing, unless the
session goes on all the same; otherwise it does what the text does alone. -/
theorem run_isolated (settings : Settings) (keepGoing : Bool) {start : Workspace}
    (h : start.environment.Holds Value.IsRuntime) (earlier : List String) (text : String) :
    let w := workspaceAfter start (runAll ⟨settings, keepGoing⟩ start earlier)
    let step := run ⟨settings, keepGoing⟩ w text
    let source := ofText text
    (∀ verbosity w', w'.environment = w.environment →
      (run ⟨{ settings with verbosity := verbosity }, keepGoing⟩ w' text).log = step.log) ∧
    step.log.errors = source.lexical ++ source.syntactic ∧
    step.log.runtimeErrors =
      step.result.fault?.toList.map (fun fault => ⟨fault.line, fault.message⟩) ∧
    (source.reports ≠ [] → keepGoing = false → step.result.output = [] ∧
      step.result.environment = w.environment ∧ step.result.stop = none) ∧
    (source.reports = [] ∨ keepGoing = true → ∀ verbosity,
      let alone := runSource { settings with verbosity := verbosity } w.environment text
      step.result.output = alone.result.output ∧
      step.result.environment = alone.result.environment ∧
      step.result.stop = alone.result.stop ∧ step.log = alone.log) := by
  intro w step source
  have hw : w.environment.Holds Value.IsRuntime := workspaceAfter_holds _ h earlier
  have hstep : step = _ := run_eq ⟨settings, keepGoing⟩ w text
  have hsame (verbosity : Nat) := interpret_text_verbosity hw
    (executed_subset ⟨settings, keepGoing⟩ source) settings verbosity
  rw [hstep]
  refine ⟨fun verbosity w' hw' => ?_, rfl, rfl, fun hr hk => ?_, fun hr verbosity => ?_⟩
  · rw [run_eq, hw']
    exact congrArg (Log.mk _) (RunResult.reports_eq_of_stop (hsame verbosity).2.2)
  · rw [executed_of_reports hr hk]
    exact ⟨rfl, rfl, rfl⟩
  · obtain ⟨henv, hout, hstop⟩ := hsame verbosity
    rw [executed_of_runs hr] at henv hout hstop ⊢
    rw [runSource_eq]
    refine ⟨hout.symm, henv.symm, hstop.symm, ?_⟩
    exact congrArg (Log.mk _) (RunResult.reports_eq_of_stop hstop.symm)

/-- After a fault, a chunk with an error in it. -/
theorem run_isolated_unexpected_character :
    let w := workspaceAfter .empty
      (runAll ⟨⟨100, 100, 0⟩, false⟩ .empty ["let x = 1;\n", "print y;\n"])
    let step := run ⟨⟨100, 100, 0⟩, false⟩ w "print x; @\n"
    w.log.runtimeErrors = [⟨1, "Undefined variable 'y'."⟩] ∧
    step.log = ⟨[⟨1, "at '@'", "Unexpected character."⟩], []⟩ ∧
    step.result.output = [] ∧ step.result.environment = ⟨[(.str "x", .int 1)]⟩ := by
  intro w step
  have hempty : Workspace.empty.environment.Holds Value.IsRuntime := List.forall_mem_nil _
  obtain ⟨-, -, -, hblocked, -⟩ := run_isolated ⟨100, 100, 0⟩ false hempty
    ["let x = 1;\n", "print y;\n"] "print x; @\n"
  obtain ⟨hout, henv, -⟩ := hblocked (by decide +kernel) rfl
  have hw : w.environment = ⟨[(.str "x", .int 1)]⟩ := by decide +kernel
  exact ⟨by decide +kernel, by decide +kernel, hout, henv.trans hw⟩

end LetLang.Session
