import Mathlib.Data.List.Forall2
import LetLang.Proofs.Execution.Verbosity
import LetLang.Proofs.Session.Chunks

namespace LetLang

/-- The two steps differ in what was told, and less was told in the first one. -/
structure Step.IsQuieter (s s' : Step) : Prop where
  result : s.result.IsQuieter s'.result
  log : s.log = s'.log

theorem Step.IsQuieter.workspace {s s' : Step} (h : s.IsQuieter s') : s.workspace = s'.workspace :=
  congrArg₂ Workspace.mk h.result.environment h.log

namespace Session
open Source

theorem executed_subset (options : Options) (source : Source) :
    executed options source ⊆ source.program := by
  unfold executed
  split
  · exact List.Subset.refl _
  · exact List.nil_subset _

/-- A chunk leaves runtime values where it finds them. -/
theorem run_holds (options : Options) {w : Workspace} (hw : w.environment.Holds Value.IsRuntime)
    (text : String) : (run options w text).workspace.environment.Holds Value.IsRuntime := by
  rw [run_eq]
  exact (interpret_text_holds hw (executed_subset options _) options.settings).1

/-- All the lines of the trace of some steps. -/
def traceOf (steps : List Step) : List String := steps.flatMap (·.result.trace)

section
variable {d d' : Nat} (h : d ≤ d') (settings : Settings) (keepGoing : Bool)
include h

theorem listing_sublist (source : Source) :
    (listing ⟨{ settings with verbosity := d }, keepGoing⟩ source).Sublist
      (listing ⟨{ settings with verbosity := d' }, keepGoing⟩ source) := by
  unfold listing
  by_cases hd : 4 ≤ d
  · simp only [if_pos hd, if_pos (Nat.le_trans hd h), List.Sublist.refl]
  · rw [if_neg hd]
    exact List.nil_sublist _

theorem run_isQuieter {w : Workspace} (hw : w.environment.Holds Value.IsRuntime) (text : String) :
    (run ⟨{ settings with verbosity := d }, keepGoing⟩ w text).IsQuieter
      (run ⟨{ settings with verbosity := d' }, keepGoing⟩ w text) := by
  have hq := interpret_text_isQuieter hw
    (executed_subset ⟨{ settings with verbosity := d }, keepGoing⟩ (ofText text)) h settings
  rw [run_eq, run_eq]
  refine ⟨⟨hq.environment, hq.output, hq.stop, ?_⟩, ?_⟩
  · exact (listing_sublist h settings keepGoing _).append hq.trace
  · exact congrArg (Log.mk _) (RunResult.reports_eq_of_stop hq.stop)

theorem forall_isQuieter {w : Workspace} (hw : w.environment.Holds Value.IsRuntime)
    (chunks : List String) : List.Forall₂ Step.IsQuieter
      (runAll ⟨{ settings with verbosity := d }, keepGoing⟩ w chunks)
      (runAll ⟨{ settings with verbosity := d' }, keepGoing⟩ w chunks) := by
  induction chunks generalizing w with
  | nil => exact .nil
  | cons text chunks ih =>
    have hq := run_isQuieter h settings keepGoing hw text
    have hrest := ih (run_holds ⟨{ settings with verbosity := d' }, keepGoing⟩ hw text)
    rw [runAll, runAll, hq.result.stop, hq.workspace]
    split
    · exact .cons hq hrest
    · exact .cons hq hrest
    · exact .cons hq .nil

omit h in
theorem traceOf_sublist {steps steps' : List Step} (h : List.Forall₂ Step.IsQuieter steps steps') :
    (traceOf steps).Sublist (traceOf steps') := by
  induction h with
  | nil => exact List.Sublist.refl _
  | cons hq _ ih => exact hq.result.trace.append ih

/-- The chunks of a session do the same, however much it tells, and the lines that it writes are
among those that it writes when it tells more. -/
theorem runAll_isQuieter {w : Workspace} (hw : w.environment.Holds Value.IsRuntime)
    (chunks : List String) :
    let quiet := runAll ⟨{ settings with verbosity := d }, keepGoing⟩ w chunks
    let loud := runAll ⟨{ settings with verbosity := d' }, keepGoing⟩ w chunks
    List.Forall₂ Step.IsQuieter quiet loud ∧ (traceOf quiet).Sublist (traceOf loud) :=
  have hsteps := forall_isQuieter h settings keepGoing hw chunks
  ⟨hsteps, traceOf_sublist hsteps⟩

end

/-- At the second level of verbosity the declaration is told too. -/
theorem runAll_isQuieter_declaration :
    let chunks := ["let x = 1;\n", "print x; print -true;\n"]
    let quiet := runAll ⟨⟨100, 100, 1⟩, false⟩ .empty chunks
    let loud := runAll ⟨⟨100, 100, 2⟩, false⟩ .empty chunks
    traceOf quiet = ["exec VarDecl", "exec PrintStmt", "exec PrintStmt",
      "runtime fault at line 1: Operand must be a number."] ∧
    traceOf loud = ["exec VarDecl", "declare x: number = 1", "exec PrintStmt", "exec PrintStmt",
      "runtime fault at line 1: Operand must be a number."] ∧
    List.Forall₂ Step.IsQuieter quiet loud ∧ (traceOf quiet).Sublist (traceOf loud) := by
  intro chunks quiet loud
  have hempty : Workspace.empty.environment.Holds Value.IsRuntime := List.forall_mem_nil _
  exact ⟨by decide +kernel, by decide +kernel,
    runAll_isQuieter (by decide : 1 ≤ 2) ⟨100, 100, 0⟩ false hempty chunks⟩

end Session

end LetLang
