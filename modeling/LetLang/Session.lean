import LetLang.Workspace

namespace LetLang.Session

structure Options where
  settings : Settings
  /-- Run what could be parsed even if there were errors. -/
  keepGoing : Bool

/-- Is the chunk run at all? -/
def runs (options : Options) (source : Source) : Bool :=
  !source.isEmpty && (source.reports.isEmpty || options.keepGoing)

def listing (options : Options) (source : Source) : List String :=
  if 4 ≤ options.settings.verbosity then source.listing else []

/-- Runs one chunk in what earlier ones left. Their reports are forgotten. -/
def run (options : Options) (w : Workspace) (text : String) : Step :=
  let source := Source.ofText text
  let fresh : Workspace := { w.resetLog with log := w.resetLog.log.addErrors source.reports }
  let step :=
    if runs options source then fresh.runProgram options.settings source.program
    else ⟨⟨fresh.environment, [], [], none⟩, fresh.log⟩
  { step with result.trace := listing options source ++ step.result.trace }

/-- Runs chunks one after another. After a stop that is not a fault there are no more. -/
def runAll (options : Options) (w : Workspace) : List String → List Step
  | [] => []
  | text :: texts =>
    let step := run options w text
    match step.result.stop with
    | none | some (.fault _) => step :: runAll options step.workspace texts
    | some _ => [step]

/-- The workspace after some steps. -/
def workspaceAfter (w : Workspace) (steps : List Step) : Workspace :=
  (steps.getLast?.map Step.workspace).getD w

end LetLang.Session
